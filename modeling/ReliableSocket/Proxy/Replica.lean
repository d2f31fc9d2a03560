import ReliableSocket.Proxy.Queue

open dare.log dare.server proxy run

namespace replica

/-- An entry of the log. `call` is the number of the call of `leader_handle_submit_req` on this server
    that has put the entry into the queue; entries of other servers have none. -/
structure logged where
  entry : dare_log_entry_t
  call : Option Nat
deriving DecidableEq

/-- One server as its proxy sees it. The log is the list of all entries since the start, `commit` and
    `apply` count entries. `submitted` has the queue entry and the counter `cur_rec` of each call of
    `leader_handle_submit_req`, `returned` the numbers of the calls that have left their waiting loop.
    `counted` and `acted` are the positions of the entries for which `proxy_update_state` and
    `proxy_do_action` were called. -/
structure replica_t where
  leader : Bool
  log : List logged
  commit : Nat
  apply : Nat
  queue : List (tailq_entry_t × Nat)
  cur_rec : UInt64
  highest_rec : UInt64
  submitted : List (tailq_entry_t × UInt64)
  returned : List Nat
  counted : List Nat
  acted : List Nat
  calls : List apply_call
deriving DecidableEq

/-- One entry of `apply_committed_entries`: the leader counts a client entry, a follower passes it to
    the guest. -/
def apply_entry (s : replica_t) : replica_t :=
  match s.log[s.apply]? with
  | none => s
  | some x =>
    let s' := { s with apply := s.apply + 1, calls := s.calls ++ entry_calls s.leader x.entry }
    if is_client x.entry.type then
      if s.leader then
        { s' with highest_rec := s.highest_rec + 1, counted := s.counted ++ [s.apply] }
      else { s' with acted := s.acted ++ [s.apply] }
    else s'

def apply_loop : Nat → replica_t → replica_t
  | 0, s => s
  | n + 1, s => apply_loop n (apply_entry s)

def apply_committed_entries (s : replica_t) : replica_t := apply_loop (s.commit - s.apply) s

/-- What happens on one server. `submit` is the part of `leader_handle_submit_req` under the lock and
    `ret` the end of its waiting loop; `drain` is one turn of the loop of `get_tailq_message`, which
    finds place in the log or not; `append` adds an entry of the consensus itself; `remote` and `commit`
    are what a leader writes into the log, or this server as the leader computes. -/
inductive Action where
  | submit (e : tailq_entry_t)
  | drain (idx term : UInt64) (appended : Bool)
  | append (x : dare_log_entry_t)
  | remote (keep : Nat) (es : List dare_log_entry_t)
  | commit (n : Nat)
  | apply
  | role (leader : Bool)
  | ret (k : Nat)
deriving DecidableEq

def submit (s : replica_t) (e : tailq_entry_t) : replica_t :=
  { s with
    cur_rec := s.cur_rec + 1
    submitted := s.submitted ++ [(e, s.cur_rec + 1)]
    queue := s.queue ++ [(e, s.submitted.length)] }

def drain (s : replica_t) (idx term : UInt64) (appended : Bool) : replica_t :=
  match s.queue with
  | [] => s
  | (e, k) :: rest =>
    if appended then
      { s with
        queue := rest
        log := s.log ++ [⟨⟨idx, term, e.req_id, e.connection_id, e.data⟩, some k⟩] }
    else { s with queue := rest }

/-- Writes into the log leave the committed entries alone. -/
def remote (s : replica_t) (keep : Nat) (es : List dare_log_entry_t) : replica_t :=
  if s.commit ≤ keep ∧ keep ≤ s.log.length then
    { s with log := s.log.take keep ++ es.map fun x => ⟨x, none⟩ }
  else s

/-- The loop `while (cur_rec > proxy->highest_rec)` of a call is left. -/
def ret (s : replica_t) (k : Nat) : replica_t :=
  match s.submitted[k]? with
  | none => s
  | some (_, cur_rec) =>
    if k ∉ s.returned ∧ ¬cur_rec > s.highest_rec then { s with returned := s.returned ++ [k] } else s

def step (s : replica_t) : Action → replica_t
  | .submit e => submit s e
  | .drain idx term appended => drain s idx term appended
  | .append x => if is_client x.type then s else { s with log := s.log ++ [⟨x, none⟩] }
  | .remote keep es => remote s keep es
  | .commit n => if s.commit ≤ n ∧ n ≤ s.log.length then { s with commit := n } else s
  | .apply => apply_committed_entries s
  | .role leader => { s with leader := leader }
  | .ret k => ret s k

/-- The entries that are committed and not applied. -/
def backlog (s : replica_t) : List logged := (s.log.drop s.apply).take (s.commit - s.apply)

/-- A server before its first submission, with any log of earlier leaders. -/
structure Fresh (s : replica_t) : Prop where
  apply_le : s.apply ≤ s.commit
  commit_le : s.commit ≤ s.log.length
  queue : s.queue = []
  cur_rec : s.cur_rec = 0
  highest_rec : s.highest_rec = 0
  submitted : s.submitted = []
  returned : s.returned = []
  counted : s.counted = []
  acted : s.acted = []
  call : ∀ x ∈ s.log, x.call = none

/-- What a step does to the log and the offsets: the applied part of the log stays as it is. -/
structure Bounds (s : replica_t) : Prop where
  apply_le : s.apply ≤ s.commit
  commit_le : s.commit ≤ s.log.length

section apply

variable {s : replica_t} {x : logged}

theorem apply_entry_cases (hx : s.log[s.apply]? = some x) :
    (is_client x.entry.type = true ∧ s.leader = true ∧ apply_entry s =
      { s with
        apply := s.apply + 1
        calls := s.calls ++ entry_calls s.leader x.entry
        highest_rec := s.highest_rec + 1
        counted := s.counted ++ [s.apply] }) ∨
    (is_client x.entry.type = true ∧ s.leader = false ∧ apply_entry s =
      { s with
        apply := s.apply + 1
        calls := s.calls ++ entry_calls s.leader x.entry
        acted := s.acted ++ [s.apply] }) ∨
    (is_client x.entry.type = false ∧ apply_entry s =
      { s with apply := s.apply + 1, calls := s.calls ++ entry_calls s.leader x.entry }) := by
  cases hclient : is_client x.entry.type
  · right; right
    simp [apply_entry, hx, hclient]
  · cases hleader : s.leader
    · right; left
      simp [apply_entry, hx, hclient, hleader]
    · left
      simp [apply_entry, hx, hclient, hleader]

/-- What every applied entry leaves alone. -/
structure Frame (s s' : replica_t) : Prop where
  leader : s'.leader = s.leader
  log : s'.log = s.log
  commit : s'.commit = s.commit
  queue : s'.queue = s.queue
  cur_rec : s'.cur_rec = s.cur_rec
  submitted : s'.submitted = s.submitted
  returned : s'.returned = s.returned

theorem apply_entry_frame (hx : s.log[s.apply]? = some x) :
    Frame s (apply_entry s) ∧ (apply_entry s).apply = s.apply + 1 := by
  obtain ⟨-, -, heq⟩ | ⟨-, -, heq⟩ | ⟨-, heq⟩ := apply_entry_cases hx
  all_goals
    rw [heq]
    exact ⟨⟨rfl, rfl, rfl, rfl, rfl, rfl, rfl⟩, rfl⟩

theorem backlog_cons (hbounds : Bounds s) {n : Nat} (hn : s.commit - s.apply = n + 1) :
    ∃ x, s.log[s.apply]? = some x ∧
      (Frame s (apply_entry s) ∧ (apply_entry s).apply = s.apply + 1) ∧
      Bounds (apply_entry s) ∧ (apply_entry s).commit - (apply_entry s).apply = n ∧
      backlog s = x :: backlog (apply_entry s) := by
  have hle := hbounds.apply_le
  have hcommit := hbounds.commit_le
  have hlt : s.apply < s.log.length := by omega
  have hx : s.log[s.apply]? = some s.log[s.apply] := List.getElem?_eq_getElem hlt
  obtain ⟨hframe, happly⟩ := apply_entry_frame hx
  refine ⟨_, hx, ⟨hframe, happly⟩, ⟨?_, ?_⟩, ?_, ?_⟩
  · rw [happly, hframe.commit]
    omega
  · rw [hframe.commit, hframe.log]
    exact hcommit
  · rw [hframe.commit, happly]
    omega
  · rw [backlog, backlog, hframe.log, hframe.commit, happly, hn, List.drop_eq_getElem_cons hlt,
      List.take_succ_cons]
    congr 2
    omega

/-- The calls of the loop are those of the entries of the backlog. -/
theorem apply_loop_calls (hbounds : Bounds s) {n : Nat} (hn : s.commit - s.apply = n) :
    (apply_loop n s).calls =
      s.calls ++ ((backlog s).map (·.entry)).flatMap (entry_calls s.leader) := by
  induction n generalizing s with
  | zero => simp [apply_loop, backlog, hn]
  | succ n ih =>
    obtain ⟨x, hx, ⟨hframe, -⟩, hbounds', hn', hback⟩ := backlog_cons hbounds hn
    have hcalls : (apply_entry s).calls = s.calls ++ entry_calls s.leader x.entry := by
      obtain ⟨-, -, heq⟩ | ⟨-, -, heq⟩ | ⟨-, heq⟩ := apply_entry_cases hx
      all_goals rw [heq]
    rw [apply_loop, ih hbounds' hn', hcalls, hframe.leader, hback, List.map_cons, List.flatMap_cons,
      List.append_assoc]

/-- The loop over the bytes of the log makes the calls that this model says: it ends, and it adds the
    same calls if the entries behind its apply offset are those of the backlog. -/
theorem apply_committed_entries_refines (hbounds : Bounds s) {t : apply_t}
    {rest : List dare_log_entry_t} (hlog : Backlog t ((backlog s).map (·.entry)) rest)
    (hrole : IS_LEADER t.data = s.leader) :
    ∃ t' new, dare.server.apply_committed_entries t = some t' ∧ t'.calls = t.calls ++ new ∧
      (apply_committed_entries s).calls = s.calls ++ new := by
  obtain ⟨t', heq, hcalls⟩ := hlog.apply_committed_entries_eq
  rw [hrole] at hcalls
  exact ⟨t', _, heq, hcalls, apply_loop_calls hbounds rfl⟩

end apply

/-- What all steps but `apply` leave alone: the committed entries, and what was done with them. -/
structure Quiet (s s' : replica_t) : Prop where
  apply : s'.apply = s.apply
  highest_rec : s'.highest_rec = s.highest_rec
  counted : s'.counted = s.counted
  acted : s'.acted = s.acted
  log : ∀ p < s.commit, s'.log[p]? = s.log[p]?
  bounds : Bounds s'

theorem Quiet.refl {s : replica_t} (hbounds : Bounds s) : Quiet s s :=
  ⟨rfl, rfl, rfl, rfl, fun _ _ => rfl, hbounds⟩

theorem quiet_append {s : replica_t} (hbounds : Bounds s) (x : logged) (rest : List (tailq_entry_t × Nat)) :
    Quiet s { s with queue := rest, log := s.log ++ [x] } := by
  have hcommit := hbounds.commit_le
  refine ⟨rfl, rfl, rfl, rfl, fun p hp => List.getElem?_append_left (by omega), hbounds.apply_le, ?_⟩
  rw [List.length_append]
  exact Nat.le_trans hcommit (Nat.le_add_right _ _)

theorem quiet_remote {s : replica_t} (hbounds : Bounds s) (keep : Nat) (es : List dare_log_entry_t) :
    Quiet s (remote s keep es) := by
  unfold remote
  split
  · rename_i hkeep
    have htake : (s.log.take keep).length = keep := by
      rw [List.length_take]
      omega
    refine ⟨rfl, rfl, rfl, rfl, fun p hp => ?_, hbounds.apply_le, ?_⟩
    · rw [List.getElem?_append_left (by omega), List.getElem?_take_of_lt (by omega)]
    · rw [List.length_append, htake]
      exact Nat.le_trans hkeep.1 (Nat.le_add_right _ _)
  · exact .refl hbounds

theorem step_quiet {s : replica_t} (hbounds : Bounds s) {a : Action} (ha : a ≠ .apply) :
    Quiet s (step s a) := by
  cases a with
  | apply => exact absurd rfl ha
  | submit e => exact ⟨rfl, rfl, rfl, rfl, fun _ _ => rfl, hbounds.apply_le, hbounds.commit_le⟩
  | drain idx term appended =>
    rw [step, drain]
    split
    · exact .refl hbounds
    · split
      · exact quiet_append hbounds _ _
      · exact ⟨rfl, rfl, rfl, rfl, fun _ _ => rfl, hbounds.apply_le, hbounds.commit_le⟩
  | append x =>
    rw [step]
    split
    · exact .refl hbounds
    · exact quiet_append hbounds _ s.queue
  | remote keep es => exact quiet_remote hbounds keep es
  | commit n =>
    rw [step]
    split
    · rename_i hn
      exact ⟨rfl, rfl, rfl, rfl, fun _ _ => rfl, Nat.le_trans hbounds.apply_le hn.1, hn.2⟩
    · exact .refl hbounds
  | role leader => exact ⟨rfl, rfl, rfl, rfl, fun _ _ => rfl, hbounds.apply_le, hbounds.commit_le⟩
  | ret k =>
    rw [step, ret]
    split
    · exact .refl hbounds
    · split
      · exact ⟨rfl, rfl, rfl, rfl, fun _ _ => rfl, hbounds.apply_le, hbounds.commit_le⟩
      · exact .refl hbounds

/-- A client entry of another server. -/
def logged.Foreign (x : logged) : Prop := is_client x.entry.type = true ∧ x.call = none

instance (x : logged) : Decidable x.Foreign := inferInstanceAs (Decidable (_ ∧ _))

section delivered

variable {start : Nat} {s : replica_t}

/-- Every client entry of another server that was applied was passed to the guest exactly once. -/
def Delivered (start : Nat) (s : replica_t) : Prop :=
  ∀ p x, start ≤ p → p < s.apply → s.log[p]? = some x → x.Foreign → s.acted.count p = 1

/-- No entry is passed to the guest before it is applied. -/
structure ActedBehind (start : Nat) (s : replica_t) : Prop extends Bounds s where
  start_le : start ≤ s.apply
  acted : ∀ p ∈ s.acted, p < s.apply

/-- One entry of another server is delivered exactly if it is not applied by a leader. -/
theorem delivered_apply_entry (hs : ActedBehind start s) {x : logged} (hx : s.log[s.apply]? = some x)
    (hnext : Bounds (apply_entry s)) :
    (Delivered start (apply_entry s) ↔ Delivered start s ∧ (s.leader = true → ¬x.Foreign)) ∧
      ActedBehind start (apply_entry s) := by
  have hnew : s.acted.count s.apply = 0 := List.count_eq_zero.mpr fun hmem =>
    Nat.lt_irrefl _ (hs.acted _ hmem)
  have hstart := hs.start_le
  have hsplit : ∀ p, p < s.apply + 1 ↔ p < s.apply ∨ p = s.apply := fun p => by omega
  obtain ⟨-, hleader, heq⟩ | ⟨-, hleader, heq⟩ | ⟨hclient, heq⟩ := apply_entry_cases hx
  · rw [heq] at hnext ⊢
    refine ⟨?_, hnext, Nat.le_succ_of_le hstart, fun p hp => Nat.lt_succ_of_lt (hs.acted p hp)⟩
    constructor
    · refine fun h => ⟨fun p y hp hlt => h p y hp (Nat.lt_succ_of_lt hlt), fun _ hforeign => ?_⟩
      have hone := h s.apply x hstart (Nat.lt_succ_self _) hx hforeign
      rw [hnew] at hone
      exact Nat.zero_ne_one hone
    · rintro ⟨hold, hnot⟩ p y hp hlt hy hforeign
      obtain hlt | rfl := (hsplit p).mp hlt
      · exact hold p y hp hlt hy hforeign
      · obtain rfl := Option.some.inj (hx.symm.trans hy)
        exact absurd hforeign (hnot hleader)
  · rw [heq] at hnext ⊢
    have hcount : ∀ p, p < s.apply → (s.acted ++ [s.apply]).count p = s.acted.count p := by
      intro p hlt
      rw [List.count_append, List.count_singleton]
      have hne : ¬(s.apply == p) = true := by simp; omega
      simp [hne]
    refine ⟨?_, hnext, Nat.le_succ_of_le hstart, fun p hp => ?_⟩
    · constructor
      · refine fun h => ⟨fun p y hp hlt hy hforeign => ?_, fun hlead => ?_⟩
        · rw [← hcount p hlt]
          exact h p y hp (Nat.lt_succ_of_lt hlt) hy hforeign
        · rw [hleader] at hlead
          cases hlead
      · rintro ⟨hold, -⟩ p y hp hlt hy hforeign
        obtain hlt | rfl := (hsplit p).mp hlt
        · exact (hcount p hlt).trans (hold p y hp hlt hy hforeign)
        · simp [List.count_append, hnew]
    · obtain hp | hp := List.mem_append.mp hp
      · exact Nat.lt_succ_of_lt (hs.acted p hp)
      · rw [List.mem_singleton.mp hp]
        exact Nat.lt_succ_self _
  · rw [heq] at hnext ⊢
    have hnot : ¬x.Foreign := fun hforeign => by
      rw [hforeign.1] at hclient
      cases hclient
    refine ⟨?_, hnext, Nat.le_succ_of_le hstart, fun p hp => Nat.lt_succ_of_lt (hs.acted p hp)⟩
    constructor
    · exact fun h => ⟨fun p y hp hlt => h p y hp (Nat.lt_succ_of_lt hlt), fun _ => hnot⟩
    · rintro ⟨hold, -⟩ p y hp hlt hy hforeign
      obtain hlt | rfl := (hsplit p).mp hlt
      · exact hold p y hp hlt hy hforeign
      · obtain rfl := Option.some.inj (hx.symm.trans hy)
        exact absurd hforeign hnot

theorem delivered_apply_loop (hs : ActedBehind start s) {n : Nat} (hn : s.commit - s.apply = n) :
    (Delivered start (apply_loop n s) ↔
      Delivered start s ∧ (s.leader = true → ∀ x ∈ backlog s, ¬x.Foreign)) ∧
      ActedBehind start (apply_loop n s) := by
  induction n generalizing s with
  | zero => exact ⟨by simp [apply_loop, backlog, hn], hs⟩
  | succ n ih =>
    obtain ⟨x, hx, ⟨hframe, -⟩, hbounds, hn', hback⟩ := backlog_cons hs.toBounds hn
    obtain ⟨hentry, hs'⟩ := delivered_apply_entry hs hx hbounds
    obtain ⟨hrest, hs''⟩ := ih hs' hn'
    refine ⟨?_, hs''⟩
    rw [apply_loop, hrest, hentry, hframe.leader, hback]
    simp only [List.mem_cons, forall_eq_or_imp]
    constructor
    · rintro ⟨⟨hold, hfirst⟩, hlater⟩
      exact ⟨hold, fun hleader => ⟨hfirst hleader, hlater hleader⟩⟩
    · rintro ⟨hold, hall⟩
      exact ⟨⟨hold, fun hleader => (hall hleader).1⟩, fun hleader => (hall hleader).2⟩

/-- A server that leads applies no client entry of another server. -/
def ForeignAsFollower (s : replica_t) : Action → Prop
  | .apply => s.leader = true → ∀ x ∈ backlog s, ¬x.Foreign
  | .submit _ | .drain _ _ _ | .append _ | .remote _ _ | .commit _ | .role _ | .ret _ => True

instance (s : replica_t) (a : Action) : Decidable (ForeignAsFollower s a) := by
  cases a <;> unfold ForeignAsFollower <;> infer_instance

theorem delivered_step (hs : ActedBehind start s) (a : Action) :
    (Delivered start (step s a) ↔ Delivered start s ∧ ForeignAsFollower s a) ∧
      ActedBehind start (step s a) := by
  by_cases ha : a = .apply
  · subst ha
    exact delivered_apply_loop hs rfl
  · have hquiet := step_quiet hs.toBounds ha
    have hok : ForeignAsFollower s a := by
      cases a with
      | apply => exact absurd rfl ha
      | _ => trivial
    have hle := hs.apply_le
    refine ⟨?_, hquiet.bounds, by rw [hquiet.apply]; exact hs.start_le, ?_⟩
    · have hsame : Delivered start (step s a) ↔ Delivered start s := by
        unfold Delivered
        rw [hquiet.apply, hquiet.acted]
        refine forall₂_congr fun p x => forall₂_congr fun _ hlt => ?_
        rw [hquiet.log p (by omega)]
      rw [hsame]
      exact ⟨fun h => ⟨h, hok⟩, fun h => h.1⟩
    · rw [hquiet.apply, hquiet.acted]
      exact hs.acted

theorem delivered_steps (hs : ActedBehind start s) (actions : List Action) :
    Delivered start (steps step s actions) ↔
      Delivered start s ∧ AllOk step ForeignAsFollower s actions := by
  induction actions generalizing s with
  | nil => simp [AllOk]
  | cons a actions ih =>
    obtain ⟨hstep, hs'⟩ := delivered_step hs a
    rw [steps_cons, ih hs', hstep, AllOk, and_assoc]

end delivered

/-- The loop ends at the commit offset. -/
theorem apply_loop_apply {s : replica_t} (hbounds : Bounds s) {n : Nat} (hn : s.commit - s.apply = n) :
    (apply_loop n s).apply = s.commit ∧ (apply_loop n s).commit = s.commit ∧
      (apply_loop n s).log = s.log := by
  induction n generalizing s with
  | zero =>
    have hle := hbounds.apply_le
    exact ⟨by rw [apply_loop]; omega, rfl, rfl⟩
  | succ n ih =>
    obtain ⟨x, -, ⟨hframe, -⟩, hbounds', hn', -⟩ := backlog_cons hbounds hn
    rw [apply_loop, ← hframe.commit, ← hframe.log]
    exact ih hbounds' hn'

theorem actedBehind_steps {start : Nat} {s : replica_t} (hs : ActedBehind start s)
    (actions : List Action) : ActedBehind start (steps step s actions) := by
  induction actions generalizing s with
  | nil => exact hs
  | cons a actions ih => exact ih (delivered_step hs a).2

/-- In every run with any changes of the role that ends with a call of `apply_committed_entries`: each
    client entry of another server that was committed since the start has been passed to
    `proxy_do_action` exactly once, if and only if this server applied none of them while it was the
    leader. -/
theorem foreign_entries_reach_guest {s : replica_t} (hs : Fresh s) (actions : List Action) :
    let s' := steps step s (actions ++ [.apply])
    (∀ p x, s.apply ≤ p → p < s'.commit → s'.log[p]? = some x → x.Foreign → s'.acted.count p = 1) ↔
      AllOk step ForeignAsFollower s (actions ++ [.apply]) := by
  intro s'
  have hbehind : ActedBehind s.apply s :=
    ⟨⟨hs.apply_le, hs.commit_le⟩, Nat.le_refl _, by simp [hs.acted]⟩
  have hstart : Delivered s.apply s := fun p x hp hlt => absurd hlt (Nat.not_lt.mpr hp)
  have happly : s'.apply = s'.commit := by
    obtain ⟨hend, hcommit, -⟩ := apply_loop_apply (actedBehind_steps hbehind actions).toBounds rfl
    change (steps step s (actions ++ [.apply])).apply = (steps step s (actions ++ [.apply])).commit
    rw [steps_concat]
    exact hend.trans hcommit.symm
  have hsteps : Delivered s.apply s' ↔ _ := delivered_steps hbehind (actions ++ [.apply])
  unfold Delivered at hsteps
  rw [happly] at hsteps
  exact ⟨fun h => (hsteps.mp h).2, fun h => hsteps.mpr ⟨hstart, h⟩⟩

/-- A server that has just started. -/
def new_replica : replica_t where
  leader := false
  log := []
  commit := 0
  apply := 0
  queue := []
  cur_rec := 0
  highest_rec := 0
  submitted := []
  returned := []
  counted := []
  acted := []
  calls := []

theorem new_replica_fresh : Fresh new_replica :=
  ⟨Nat.le_refl _, Nat.le_refl _, rfl, rfl, rfl, rfl, rfl, rfl, rfl, by simp [new_replica]⟩

/-- A packet that another leader has put into the log. -/
def foreign_packet : dare_log_entry_t :=
  ⟨1, 1, 0, 0, .cmd ⟨RAW, by decide⟩ ⟨[42], by decide⟩⟩

theorem follower_delivers_packet :
    let s' := steps step new_replica ([.remote 0 [foreign_packet], .commit 1] ++ [.apply])
    (s'.commit = 1 ∧ s'.log.map (decide ·.Foreign) = [true]) ∧
      ∀ p x, 0 ≤ p → p < s'.commit → s'.log[p]? = some x → x.Foreign → s'.acted.count p = 1 :=
  ⟨by decide +kernel, (foreign_entries_reach_guest new_replica_fresh
    [.remote 0 [foreign_packet], .commit 1]).mpr (by decide +kernel)⟩

/-- The packet is committed but not applied when this server wins an election: the new leader only
    counts it. -/
theorem new_leader_withholds_packet :
    let s' := steps step new_replica [.remote 0 [foreign_packet], .commit 1, .role true, .apply]
    s'.commit = 1 ∧ s'.apply = 1 ∧ s'.log.map (decide ·.Foreign) = [true] ∧ s'.acted = [] ∧
      s'.calls = [.proxy_store_cmd foreign_packet, .proxy_update_state] := by
  decide +kernel

/-- The client entries are those of the calls number `n`, `n + 1` and so on of this server. -/
def OwnFrom : Nat → List logged → Prop
  | _, [] => True
  | n, x :: xs =>
    if is_client x.entry.type then x.call = some n ∧ OwnFrom (n + 1) xs else OwnFrom n xs

/-- The entry is that of a submission, and no submission before it is lost: each of them is counted, or
    its entry waits to be applied too. -/
def NoneLost (s : replica_t) (x : logged) : Prop :=
  x.call ≠ none ∧ ∀ k ∈ x.call, ∀ j < k, s.highest_rec.toNat ≤ j → ∃ y ∈ backlog s, y.call = some j

instance (s : replica_t) (x : logged) : Decidable (NoneLost s x) := by
  have : ∀ k, Decidable (∀ j < k, s.highest_rec.toNat ≤ j → ∃ y ∈ backlog s, y.call = some j) :=
    fun k => inferInstance
  have : Decidable (∀ k ∈ x.call, ∀ j < k, s.highest_rec.toNat ≤ j → ∃ y ∈ backlog s, y.call = some j) :=
    Option.decidableForallMem _
  unfold NoneLost
  infer_instance

/-- The counter of submissions does not overflow. This server counts no client entry of another server
    while it leads, and no entry of a submission before which one is lost. -/
def CountsOwn (s : replica_t) : Action → Prop
  | .submit _ => s.cur_rec.toNat + 1 < 2 ^ 64
  | .apply => s.leader = true → ∀ x ∈ backlog s, is_client x.entry.type = true → NoneLost s x
  | .drain _ _ _ | .append _ | .remote _ _ | .commit _ | .role _ | .ret _ => True

instance (s : replica_t) (a : Action) : Decidable (CountsOwn s a) := by
  cases a <;> unfold CountsOwn <;> infer_instance

/-- The entry in the log is the one that the call number `k` has put into the queue. -/
def IsOf (s : replica_t) (x : logged) (k : Nat) : Prop :=
  x.call = some k ∧ ∃ e cur_rec, s.submitted[k]? = some (e, cur_rec) ∧ x.entry.req_id = e.req_id ∧
    x.entry.clt_id = e.connection_id ∧ x.entry.data = e.data

/-- The entry of the call number `k` was applied by this server while it was the leader. -/
def AppliedAsLeader (s : replica_t) (k : Nat) : Prop :=
  ∃ p x, s.log[p]? = some x ∧ IsOf s x k ∧ p ∈ s.counted ∧ p < s.apply

/-- Which submissions the two counters stand for. -/
structure Matched (s : replica_t) : Prop extends Bounds s where
  cur_rec : s.cur_rec.toNat = s.submitted.length
  numbers : ∀ k e n, s.submitted[k]? = some (e, n) → n.toNat = k + 1
  queue : ∀ e k, (e, k) ∈ s.queue → ∃ n, s.submitted[k]? = some (e, n)
  log : ∀ x ∈ s.log, ∀ k, x.call = some k → IsOf s x k
  highest_rec : s.highest_rec.toNat ≤ s.submitted.length
  counted : ∀ k < s.highest_rec.toNat, AppliedAsLeader s k
  returned : ∀ k ∈ s.returned, k < s.highest_rec.toNat

/-- The submissions stand in the log, and behind it in the queue, in the order of the calls. -/
structure Queued (s : replica_t) : Prop where
  sorted : (s.log.filterMap (·.call) ++ s.queue.map (·.2)).Pairwise (· < ·)
  bound : ∀ k ∈ s.log.filterMap (·.call) ++ s.queue.map (·.2), k < s.submitted.length

section queued

variable {s s' : replica_t}

/-- Submissions may be dropped from the queue or overwritten in the log; the others keep their order. -/
theorem Queued.of_sublist (hs : Queued s)
    (hsub : (s'.log.filterMap (·.call) ++ s'.queue.map (·.2)).Sublist
      (s.log.filterMap (·.call) ++ s.queue.map (·.2)))
    (hsubmitted : s'.submitted = s.submitted) : Queued s' :=
  ⟨hs.sorted.sublist hsub, fun k hk => hsubmitted ▸ hs.bound k (hsub.subset hk)⟩

theorem Queued.submit (hs : Queued s) (e : tailq_entry_t) : Queued (submit s e) := by
  have hcalls : (replica.submit s e).log.filterMap (·.call) ++ (replica.submit s e).queue.map (·.2) =
      s.log.filterMap (·.call) ++ s.queue.map (·.2) ++ [s.submitted.length] := by
    simp [replica.submit]
  refine ⟨?_, fun k hk => ?_⟩
  · rw [hcalls]
    exact List.pairwise_append.mpr ⟨hs.sorted, List.pairwise_singleton _ _, fun k hk j hj =>
      List.mem_singleton.mp hj ▸ hs.bound k hk⟩
  · rw [hcalls] at hk
    simp only [replica.submit, List.length_append, List.length_singleton]
    obtain hk | hk := List.mem_append.mp hk
    · exact Nat.lt_succ_of_lt (hs.bound k hk)
    · rw [List.mem_singleton.mp hk]
      exact Nat.lt_succ_self _

/-- The first entry of the queue goes to the end of the log, or is dropped. -/
theorem Queued.drain (hs : Queued s) (idx term : UInt64) (appended : Bool) :
    Queued (drain s idx term appended) := by
  unfold replica.drain
  split
  · exact hs
  · rename_i e k rest hqueue
    split
    · exact hs.of_sublist (by simp [hqueue]) rfl
    · exact hs.of_sublist (by simp [hqueue]) rfl

theorem Queued.remote (hs : Queued s) (keep : Nat) (es : List dare_log_entry_t) :
    Queued (remote s keep es) := by
  unfold replica.remote
  split
  · have hnone : (es.map fun x => (⟨x, none⟩ : logged)).filterMap (·.call) = [] := by
      simp
    refine hs.of_sublist ?_ rfl
    rw [List.filterMap_append, hnone, List.append_nil]
    exact ((List.take_sublist keep s.log).filterMap _).append_right _
  · exact hs

theorem apply_loop_frame (n : Nat) (s : replica_t) : Frame s (apply_loop n s) := by
  induction n generalizing s with
  | zero => exact ⟨rfl, rfl, rfl, rfl, rfl, rfl, rfl⟩
  | succ n ih =>
    have hrest := ih (apply_entry s)
    have hfirst : Frame s (apply_entry s) := by
      cases hx : s.log[s.apply]? with
      | none =>
        rw [apply_entry, hx]
        exact ⟨rfl, rfl, rfl, rfl, rfl, rfl, rfl⟩
      | some x => exact (apply_entry_frame hx).1
    exact ⟨hrest.leader.trans hfirst.leader, hrest.log.trans hfirst.log, hrest.commit.trans hfirst.commit,
      hrest.queue.trans hfirst.queue, hrest.cur_rec.trans hfirst.cur_rec,
      hrest.submitted.trans hfirst.submitted, hrest.returned.trans hfirst.returned⟩

theorem Queued.step (hs : Queued s) (a : Action) : Queued (step s a) := by
  cases a with
  | submit e => exact hs.submit e
  | drain idx term appended => exact hs.drain idx term appended
  | append x =>
    rw [replica.step]
    split
    · exact hs
    · exact hs.of_sublist (by simp) rfl
  | remote keep es => exact hs.remote keep es
  | commit n =>
    rw [replica.step]
    split
    · exact hs.of_sublist (List.Sublist.refl _) rfl
    · exact hs
  | apply =>
    have hframe := apply_loop_frame (s.commit - s.apply) s
    rw [replica.step, apply_committed_entries]
    refine hs.of_sublist ?_ hframe.submitted
    rw [hframe.log, hframe.queue]
  | role leader => exact hs.of_sublist (List.Sublist.refl _) rfl
  | ret k =>
    rw [replica.step, ret]
    split
    · exact hs
    · split
      · exact hs.of_sublist (List.Sublist.refl _) rfl
      · exact hs

end queued

section matched

variable {s : replica_t}

/-- The submissions only grow. -/
theorem IsOf.mono {s' : replica_t} {x : logged} {k : Nat} (hof : IsOf s x k)
    (hsub : s.submitted <+: s'.submitted) : IsOf s' x k := by
  obtain ⟨hcall, e, n, hk, hsame⟩ := hof
  obtain ⟨new, hnew⟩ := hsub
  have hlt := (List.getElem?_eq_some_iff.mp hk).1
  exact ⟨hcall, e, n, by rw [← hnew, List.getElem?_append_left hlt]; exact hk, hsame⟩

theorem AppliedAsLeader.quiet {s' : replica_t} {k : Nat} (happ : AppliedAsLeader s k)
    (hbounds : Bounds s) (hquiet : Quiet s s') (hsub : s.submitted <+: s'.submitted) :
    AppliedAsLeader s' k := by
  obtain ⟨p, x, hx, hof, hcounted, hlt⟩ := happ
  have hle := hbounds.apply_le
  refine ⟨p, x, ?_, hof.mono hsub, ?_, ?_⟩
  · rw [hquiet.log p (by omega)]
    exact hx
  · rw [hquiet.counted]
    exact hcounted
  · rw [hquiet.apply]
    exact hlt

/-- A step that applies nothing keeps the invariant if it keeps the part about submissions. -/
theorem Matched.of_quiet {s' : replica_t} (hs : Matched s) (hquiet : Quiet s s')
    (hsub : s.submitted <+: s'.submitted) (hcur : s'.cur_rec.toNat = s'.submitted.length)
    (hnumbers : ∀ k e n, s'.submitted[k]? = some (e, n) → n.toNat = k + 1)
    (hqueue : ∀ e k, (e, k) ∈ s'.queue → ∃ n, s'.submitted[k]? = some (e, n))
    (hlog : ∀ x ∈ s'.log, ∀ k, x.call = some k → IsOf s' x k)
    (hret : ∀ k ∈ s'.returned, k < s.highest_rec.toNat) : Matched s' where
  toBounds := hquiet.bounds
  cur_rec := hcur
  numbers := hnumbers
  queue := hqueue
  log := hlog
  highest_rec := by
    rw [hquiet.highest_rec]
    exact Nat.le_trans hs.highest_rec hsub.length_le
  counted k hk := by
    rw [hquiet.highest_rec] at hk
    exact (hs.counted k hk).quiet hs.toBounds hquiet hsub
  returned := by
    rw [hquiet.highest_rec]
    exact hret

theorem Matched.submit (hs : Matched s) (e : tailq_entry_t) (hroom : s.cur_rec.toNat + 1 < 2 ^ 64) :
    Matched (submit s e) := by
  have hnext : (s.cur_rec + 1).toNat = s.submitted.length + 1 := by
    rw [UInt64.toNat_add, ← hs.cur_rec]
    exact Nat.mod_eq_of_lt hroom
  have hsub : s.submitted <+: (replica.submit s e).submitted := List.prefix_append _ _
  have hold : ∀ (k : Nat) y, s.submitted[k]? = some y →
      (replica.submit s e).submitted[k]? = some y := by
    intro k y hk
    exact (List.getElem?_append_left (List.getElem?_eq_some_iff.mp hk).1).trans hk
  refine hs.of_quiet (step_quiet hs.toBounds (a := .submit e) (by simp)) hsub ?_ ?_ ?_ ?_ hs.returned
  · simp only [replica.submit, List.length_append, List.length_singleton]
    exact hnext
  · intro k e' n hk
    obtain hlt | hge := Nat.lt_or_ge k s.submitted.length
    · refine hs.numbers k e' n ?_
      rw [← hk]
      exact (List.getElem?_append_left hlt).symm
    · have hlt := (List.getElem?_eq_some_iff.mp hk).1
      simp only [replica.submit, List.length_append, List.length_singleton] at hlt hk
      obtain rfl : k = s.submitted.length := by omega
      rw [List.getElem?_concat_length] at hk
      obtain ⟨-, rfl⟩ := Prod.mk.inj (Option.some.inj hk)
      exact hnext
  · intro e' k hmem
    obtain hmem | hmem := List.mem_append.mp hmem
    · obtain ⟨n, hn⟩ := hs.queue e' k hmem
      exact ⟨n, hold k _ hn⟩
    · obtain ⟨rfl, rfl⟩ := Prod.mk.inj (List.mem_singleton.mp hmem)
      exact ⟨s.cur_rec + 1, List.getElem?_concat_length⟩
  · exact fun x hx k hk => (hs.log x hx k hk).mono hsub

theorem Matched.drain (hs : Matched s) (idx term : UInt64) (appended : Bool) :
    Matched (drain s idx term appended) := by
  have hquiet := step_quiet hs.toBounds (a := .drain idx term appended) (by simp)
  rw [step] at hquiet
  revert hquiet
  unfold replica.drain
  split
  · exact fun _ => hs
  · rename_i e k rest hqueue
    have hrest : ∀ e' k', (e', k') ∈ rest → ∃ n, s.submitted[k']? = some (e', n) := by
      intro e' k' hmem
      exact hs.queue e' k' (by rw [hqueue]; exact List.mem_cons_of_mem _ hmem)
    split
    · intro hquiet
      refine hs.of_quiet hquiet (List.prefix_refl _) hs.cur_rec hs.numbers hrest ?_ hs.returned
      intro x hx k' hk'
      obtain hx | hx := List.mem_append.mp hx
      · exact hs.log x hx k' hk'
      · obtain rfl := List.mem_singleton.mp hx
        obtain rfl := Option.some.inj hk'
        obtain ⟨n, hn⟩ := hs.queue e k (by rw [hqueue]; exact List.mem_cons_self)
        exact ⟨rfl, e, n, hn, rfl, rfl, rfl⟩
    · intro hquiet
      exact hs.of_quiet hquiet (List.prefix_refl _) hs.cur_rec hs.numbers hrest hs.log hs.returned

/-- Entries that no call of this server has submitted may come and go. -/
theorem Matched.relog (hs : Matched s) {log : List logged} (hquiet : Quiet s { s with log := log })
    (hlog : ∀ x ∈ log, x ∈ s.log ∨ x.call = none) : Matched { s with log := log } := by
  refine hs.of_quiet hquiet (List.prefix_refl _) hs.cur_rec hs.numbers hs.queue ?_ hs.returned
  intro x hx k hk
  obtain hold | hnone := hlog x hx
  · exact hs.log x hold k hk
  · rw [hnone] at hk
    cases hk

theorem Matched.ret (hs : Matched s) (k : Nat) : Matched (ret s k) := by
  have hquiet := step_quiet hs.toBounds (a := .ret k) (by simp)
  rw [step] at hquiet
  revert hquiet
  unfold replica.ret
  split
  · exact fun _ => hs
  · rename_i e n hk
    split
    · rename_i hleave
      intro hquiet
      refine hs.of_quiet hquiet (List.prefix_refl _) hs.cur_rec hs.numbers hs.queue hs.log ?_
      intro k' hmem
      obtain hmem | hmem := List.mem_append.mp hmem
      · exact hs.returned k' hmem
      · obtain rfl := List.mem_singleton.mp hmem
        have hnumber := hs.numbers k' e n hk
        have hle : n.toNat ≤ s.highest_rec.toNat := UInt64.le_iff_toNat_le.mp (UInt64.not_lt.mp hleave.2)
        omega
    · exact fun _ => hs

/-- What was applied stays applied when one more entry is. -/
theorem AppliedAsLeader.apply_entry {k : Nat} (happ : AppliedAsLeader s k) {x : logged}
    (hx : s.log[s.apply]? = some x) : AppliedAsLeader (apply_entry s) k := by
  obtain ⟨p, y, hy, hof, hcounted, hlt⟩ := happ
  obtain ⟨-, -, heq⟩ | ⟨-, -, heq⟩ | ⟨-, heq⟩ := apply_entry_cases hx
  · rw [heq]
    exact ⟨p, y, hy, hof, List.mem_append_left _ hcounted, Nat.lt_succ_of_lt hlt⟩
  · rw [heq]
    exact ⟨p, y, hy, hof, hcounted, Nat.lt_succ_of_lt hlt⟩
  · rw [heq]
    exact ⟨p, y, hy, hof, hcounted, Nat.lt_succ_of_lt hlt⟩

/-- One entry. The counter of the leader moves only for the entry of the next submission. -/
theorem Matched.apply_entry (hs : Matched s) {x : logged} (hx : s.log[s.apply]? = some x)
    (hbounds : Bounds (apply_entry s))
    (hown : s.leader = true → is_client x.entry.type = true → x.call = some s.highest_rec.toNat) :
    Matched (apply_entry s) ∧ (apply_entry s).highest_rec.toNat = s.highest_rec.toNat +
      if s.leader = true ∧ is_client x.entry.type = true then 1 else 0 := by
  have hkeep : ∀ k < s.highest_rec.toNat, AppliedAsLeader (replica.apply_entry s) k :=
    fun k hk => (hs.counted k hk).apply_entry hx
  obtain ⟨hclient, hleader, heq⟩ | ⟨-, hleader, heq⟩ | ⟨hclient, heq⟩ := apply_entry_cases hx
  · have hcall := hown hleader hclient
    have hof := hs.log x (List.mem_of_getElem? hx) _ hcall
    have hlt : s.highest_rec.toNat < s.submitted.length := by
      obtain ⟨-, e, n, hk, -⟩ := hof
      exact (List.getElem?_eq_some_iff.mp hk).1
    have hnext : (s.highest_rec + 1).toNat = s.highest_rec.toNat + 1 := by
      have hcur := s.cur_rec.toNat_lt
      rw [UInt64.toNat_add]
      exact Nat.mod_eq_of_lt (by rw [hs.cur_rec] at hcur; change s.highest_rec.toNat + 1 < 2 ^ 64; omega)
    rw [heq] at hbounds hkeep ⊢
    refine ⟨⟨hbounds, hs.cur_rec, hs.numbers, hs.queue, hs.log, ?_, ?_, ?_⟩, ?_⟩
    · change (s.highest_rec + 1).toNat ≤ _
      rw [hnext]
      exact hlt
    · intro k hk
      change k < (s.highest_rec + 1).toNat at hk
      obtain hold | rfl : k < s.highest_rec.toNat ∨ k = s.highest_rec.toNat := by omega
      · exact hkeep k hold
      · exact ⟨s.apply, x, hx, hof, List.mem_append_right _ (List.mem_singleton_self _),
          Nat.lt_succ_self _⟩
    · intro k hk
      change k < (s.highest_rec + 1).toNat
      rw [hnext]
      exact Nat.lt_succ_of_lt (hs.returned k hk)
    · rw [if_pos ⟨hleader, hclient⟩]
      exact hnext
  · rw [heq] at hbounds hkeep ⊢
    refine ⟨⟨hbounds, hs.cur_rec, hs.numbers, hs.queue, hs.log, hs.highest_rec, hkeep, hs.returned⟩, ?_⟩
    rw [if_neg (by simp [hleader])]
    rfl
  · rw [heq] at hbounds hkeep ⊢
    refine ⟨⟨hbounds, hs.cur_rec, hs.numbers, hs.queue, hs.log, hs.highest_rec, hkeep, hs.returned⟩, ?_⟩
    rw [if_neg (by simp [hclient])]
    rfl

theorem Matched.apply_loop (hs : Matched s) {n : Nat} (hn : s.commit - s.apply = n)
    (hown : s.leader = true → OwnFrom s.highest_rec.toNat (backlog s)) : Matched (apply_loop n s) := by
  induction n generalizing s with
  | zero => exact hs
  | succ n ih =>
    obtain ⟨x, hx, ⟨hframe, -⟩, hbounds, hn', hback⟩ := backlog_cons hs.toBounds hn
    rw [hback] at hown
    have hfirst : s.leader = true → is_client x.entry.type = true →
        x.call = some s.highest_rec.toNat := by
      intro hleader hclient
      have hown' := hown hleader
      rw [OwnFrom, if_pos hclient] at hown'
      exact hown'.1
    obtain ⟨hs', hrec⟩ := hs.apply_entry hx hbounds hfirst
    refine ih hs' hn' fun hleader => ?_
    rw [hframe.leader] at hleader
    have hown' := hown hleader
    rw [OwnFrom] at hown'
    by_cases hclient : is_client x.entry.type = true
    · rw [if_pos hclient] at hown'
      rw [hrec, if_pos ⟨hleader, hclient⟩]
      exact hown'.2
    · rw [if_neg hclient] at hown'
      rw [hrec, if_neg (by simp [hclient])]
      exact hown'

/-- Entries with the numbers of calls in order, the first one `n`, and no number left out. -/
theorem ownFrom_of_calls {n : Nat} {xs : List logged}
    (hown : ∀ x ∈ xs, is_client x.entry.type = true ↔ x.call ≠ none)
    (hsorted : (xs.filterMap (·.call)).Pairwise (· < ·)) (hge : ∀ k ∈ xs.filterMap (·.call), n ≤ k)
    (hgaps : ∀ k ∈ xs.filterMap (·.call), ∀ j < k, n ≤ j → j ∈ xs.filterMap (·.call)) : OwnFrom n xs := by
  induction xs generalizing n with
  | nil => trivial
  | cons x xs ih =>
    have hfirst := hown x List.mem_cons_self
    have hrest := fun y hy => hown y (List.mem_cons_of_mem x hy)
    rw [OwnFrom]
    cases hcall : x.call with
    | none =>
      rw [List.filterMap_cons_none hcall] at hsorted hge hgaps
      rw [if_neg (by rw [hfirst, hcall]; exact fun h => h rfl)]
      exact ih hrest hsorted hge hgaps
    | some k =>
      rw [List.filterMap_cons_some hcall] at hsorted hge hgaps
      obtain ⟨hlt, hsorted⟩ := List.pairwise_cons.mp hsorted
      have hle := hge k List.mem_cons_self
      -- a smaller number would stand before this one
      obtain rfl : k = n := by
        by_contra hne
        obtain hsame | hlater := List.mem_cons.mp (hgaps k List.mem_cons_self n (by omega) (Nat.le_refl n))
        · exact hne hsame.symm
        · have hbehind := hlt n hlater
          omega
      rw [if_pos (hfirst.mpr (by rw [hcall]; exact Option.some_ne_none k))]
      refine ⟨rfl, ih hrest hsorted (fun j hj => hlt j hj) fun m hm j hj hnj => ?_⟩
      obtain rfl | hmem := List.mem_cons.mp (hgaps m (List.mem_cons_of_mem k hm) j hj (by omega))
      · omega
      · exact hmem

/-- A leader counts its own submissions one after the other: the queue keeps their order, and none is
    left out or stands between them. -/
theorem Matched.counts_next (hs : Matched s) (hqueued : Queued s)
    (hok : ∀ x ∈ backlog s, is_client x.entry.type = true → NoneLost s x) :
    OwnFrom s.highest_rec.toNat (backlog s) := by
  have hback : backlog s <:+: s.log :=
    (List.take_prefix _ _).isInfix.trans (List.drop_suffix s.apply s.log).isInfix
  have hown : ∀ x ∈ backlog s, is_client x.entry.type = true ↔ x.call ≠ none := by
    refine fun x hx => ⟨fun hclient => (hok x hx hclient).1, fun hcall => ?_⟩
    obtain ⟨k, hk⟩ := Option.ne_none_iff_exists'.mp hcall
    obtain ⟨-, e, n, -, -, -, hdata⟩ := hs.log x (hback.subset hx) k hk
    exact is_client_cmd hdata
  have hsorted := (List.pairwise_append.mp hqueued.sorted).1
  have hdrop : (backlog s).filterMap (·.call) <+: (s.log.drop s.apply).filterMap (·.call) :=
    (List.take_prefix _ _).filterMap _
  refine ownFrom_of_calls hown (hsorted.sublist (hback.sublist.filterMap _)) (fun k hk => ?_)
    fun k hk j hj hge => ?_
  · -- a smaller number is that of an applied entry, which stands before
    by_contra hlt
    obtain ⟨p, y, hy, hof, -, hp⟩ := hs.counted k (Nat.lt_of_not_le hlt)
    rw [← List.take_append_drop s.apply s.log, List.filterMap_append] at hsorted
    have hbefore : k ∈ (s.log.take s.apply).filterMap (·.call) := by
      refine List.mem_filterMap.mpr ⟨y, ?_, hof.1⟩
      exact List.mem_of_getElem? (by rw [List.getElem?_take_of_lt hp]; exact hy)
    exact Nat.lt_irrefl k ((List.pairwise_append.mp hsorted).2.2 k hbefore k (hdrop.subset hk))
  · obtain ⟨x, hx, hcall⟩ := List.mem_filterMap.mp hk
    have hclient := (hown x hx).mpr (by rw [hcall]; exact Option.some_ne_none k)
    obtain ⟨y, hy, hj⟩ := (hok x hx hclient).2 k hcall j hj hge
    exact List.mem_filterMap.mpr ⟨y, hy, hj⟩

theorem Matched.step (hs : Matched s) (hqueued : Queued s) {a : Action} (hok : CountsOwn s a) :
    Matched (step s a) := by
  cases a with
  | submit e => exact hs.submit e hok
  | drain idx term appended => exact hs.drain idx term appended
  | append x =>
    have hquiet := step_quiet hs.toBounds (a := .append x) (by simp)
    revert hquiet
    simp only [replica.step]
    split
    · exact fun _ => hs
    · refine fun hquiet => hs.relog hquiet fun y hy => ?_
      obtain hold | hnew := List.mem_append.mp hy
      · exact .inl hold
      · exact .inr (by rw [List.mem_singleton.mp hnew])
  | remote keep es =>
    have hquiet := step_quiet hs.toBounds (a := .remote keep es) (by simp)
    revert hquiet
    simp only [replica.step, remote]
    split
    · refine fun hquiet => hs.relog hquiet fun y hy => ?_
      obtain hold | hnew := List.mem_append.mp hy
      · exact .inl (List.mem_of_mem_take hold)
      · obtain ⟨x, -, rfl⟩ := List.mem_map.mp hnew
        exact .inr rfl
    · exact fun _ => hs
  | commit n =>
    have hquiet := step_quiet hs.toBounds (a := .commit n) (by simp)
    revert hquiet
    simp only [replica.step]
    split
    · exact fun hquiet => hs.of_quiet hquiet (List.prefix_refl _) hs.cur_rec hs.numbers hs.queue hs.log
        hs.returned
    · exact fun _ => hs
  | apply => exact hs.apply_loop rfl fun hleader => hs.counts_next hqueued (hok hleader)
  | role leader =>
    exact hs.of_quiet (step_quiet hs.toBounds (a := .role leader) (by simp)) (List.prefix_refl _)
      hs.cur_rec hs.numbers hs.queue hs.log hs.returned
  | ret k => exact hs.ret k

end matched

theorem Fresh.queued {s : replica_t} (hs : Fresh s) : Queued s := by
  have hnone : s.log.filterMap (·.call) = [] := List.filterMap_eq_nil_iff.mpr hs.call
  exact ⟨by simp [hnone, hs.queue], by simp [hnone, hs.queue]⟩

theorem Fresh.matched {s : replica_t} (hs : Fresh s) : Matched s where
  apply_le := hs.apply_le
  commit_le := hs.commit_le
  cur_rec := by simp [hs.cur_rec, hs.submitted]
  numbers := by simp [hs.submitted]
  queue := by simp [hs.queue]
  log x hx k hk := by
    rw [hs.call x hx] at hk
    cases hk
  highest_rec := by simp [hs.highest_rec]
  counted := by simp [hs.highest_rec]
  returned := by simp [hs.returned]

/-- In every run, with any log inherited from earlier leaders and any number of submitters, in which
    the counter of submissions does not overflow and this server, while it leads, counts no client entry
    of another server and none of its own before which one is lost: a call of `leader_handle_submit_req`
    that has returned is one whose entry is in the log, committed, and applied by this server as the
    leader. -/
theorem submission_returns_after_apply {s : replica_t} (hs : Fresh s) {actions : List Action}
    (hok : AllOk step CountsOwn s actions) :
    let s' := steps step s actions
    ∀ k ∈ s'.returned, ∃ p x, s'.log[p]? = some x ∧ IsOf s' x k ∧ p ∈ s'.counted ∧ p < s'.apply ∧
      s'.apply ≤ s'.commit := by
  intro s' k hk
  have hrun : Matched s' ∧ Queued s' :=
    hok.invariant (I := fun s => Matched s ∧ Queued s) (fun _ a h hok => ⟨h.1.step h.2 hok, h.2.step a⟩)
      ⟨hs.matched, hs.queued⟩
  have hmatched := hrun.1
  obtain ⟨p, x, hx, hof, hcounted, hlt⟩ := hmatched.counted k (hmatched.returned k hk)
  exact ⟨p, x, hx, hof, hcounted, hlt, hmatched.apply_le⟩

/-- The queue entry of a packet. -/
def own_packet : tailq_entry_t := ⟨.RAW, 0, 0, ⟨1, [42]⟩⟩

/-- A new leader appends its blank entry behind one of its predecessor that the group has applied, and
    serves two submissions at once. -/
def own_submission : List Action :=
  [.remote 0 [foreign_packet], .commit 1, .apply, .role true, .append ⟨2, 2, 0, 0, .noop⟩, .submit own_packet,
    .submit own_packet, .drain 3 2 true, .drain 4 2 true, .commit 3, .apply, .ret 0, .commit 4, .apply, .ret 1]

theorem own_submission_returns :
    (steps step new_replica own_submission).returned = [0, 1] ∧
      ∀ k ∈ (steps step new_replica own_submission).returned,
        ∃ p x, (steps step new_replica own_submission).log[p]? = some x ∧
          IsOf (steps step new_replica own_submission) x k ∧
          p ∈ (steps step new_replica own_submission).counted ∧
          p < (steps step new_replica own_submission).apply ∧
          (steps step new_replica own_submission).apply ≤
            (steps step new_replica own_submission).commit :=
  ⟨by decide +kernel, submission_returns_after_apply new_replica_fresh (by decide +kernel)⟩

/-- The new leader has counted an entry of its predecessor: the first submission returns although its
    entry is still in the queue. -/
theorem inherited_entry_releases_submission :
    let s' := steps step new_replica [.remote 0 [foreign_packet], .role true, .commit 1, .apply,
      .submit own_packet, .ret 0]
    s'.returned = [0] ∧ s'.log.map (·.call) = [none] ∧ s'.queue = [(own_packet, 0)] := by
  decide +kernel

end replica
