import ReliableSocket.Dare.Log.Index
import ReliableSocket.Dare.Server.Recovery

open memory ring dare.log proxy

namespace dare.server

section source

/-- The offset behind a history that starts in an empty log. -/
def offset_of (es : List dare_log_entry_t) : Nat := entry_format.advance LOG_SIZE 0 es

/-- What `last_applied_entry.offset` becomes when entries are applied from the offset `o` on; it is
    `r` before them. -/
def recorded_offset : Nat → Nat → List dare_log_entry_t → Nat
  | _, r, [] => r
  | o, r, x :: xs =>
    recorded_offset (entry_format.next LOG_SIZE o x)
      (if is_client x.type then entry_format.next LOG_SIZE o x else r) xs

/-- The server has applied the entries `xs` since it started behind the entries `prior`: a founding
    server behind none, and one that has recovered behind those of the snapshot it has got. Between
    the calls of `apply_committed_entries` the log may change. What the leader does with an open
    CONFIG entry does not concern the apply offset. -/
inductive Applied (prior : List dare_log_entry_t) : List dare_log_entry_t → apply_t → Prop
  | start {s : apply_t} (hlen : s.log.len = LOG_SIZE) (happly : s.log.apply = offset_of prior)
      (hlast : s.last_applied_entry = ⟨0, 0, 0⟩) : Applied prior [] s
  | other {xs : List dare_log_entry_t} {s s' : apply_t} (happlied : Applied prior xs s)
      (hlen : s'.log.len = s.log.len) (happly : s'.log.apply = s.log.apply)
      (hlast : s'.last_applied_entry = s.last_applied_entry) : Applied prior xs s'
  | apply {xs ys rest : List dare_log_entry_t} {s s' : apply_t} (happlied : Applied prior xs s)
      (hlog : Backlog s ys rest) (happly : apply_committed_entries s = some s') :
      Applied prior (xs ++ ys) s'
  | config {xs : List dare_log_entry_t} {x : dare_log_entry_t} {cid : dare_cid_t} {s s' : apply_t}
      (happlied : Applied prior xs s) (hdata : x.data = .config cid) (hlen : s'.log.len = s.log.len)
      (happly : s'.log.apply = entry_format.next LOG_SIZE s.log.apply x)
      (hlast : s'.last_applied_entry = s.last_applied_entry) : Applied prior (xs ++ [x]) s'

variable {s : apply_t} {prior xs ys zs es : List dare_log_entry_t} {x : dare_log_entry_t}

theorem recorded_offset_append (o r : Nat) (xs ys : List dare_log_entry_t) :
    recorded_offset o r (xs ++ ys) =
      recorded_offset (entry_format.advance LOG_SIZE o xs) (recorded_offset o r xs) ys := by
  induction xs generalizing o r with
  | nil => rfl
  | cons x xs ih => exact ih ..

theorem recorded_offset_of_none (o r : Nat) (hnone : ∀ x ∈ xs, is_client x.type = false) :
    recorded_offset o r xs = r := by
  induction xs generalizing o with
  | nil => rfl
  | cons x xs ih =>
    rw [recorded_offset, hnone x List.mem_cons_self]
    exact ih _ fun y hy => hnone y (List.mem_cons_of_mem _ hy)

/-- The recorded offset is the one behind the last client entry. -/
theorem recorded_offset_eq (o r : Nat) (hclient : is_client x.type = true)
    (hnone : ∀ z ∈ zs, is_client z.type = false) :
    recorded_offset o r (ys ++ x :: zs) = entry_format.advance LOG_SIZE o (ys ++ [x]) := by
  rw [recorded_offset_append, recorded_offset, hclient, if_pos rfl, recorded_offset_of_none _ _ hnone,
    RecordFormat.advance_append]
  rfl

/-- Applying entries records the offset behind the last client entry among them. -/
theorem Due.recorded {ahead : Nat} (hdue : Due s es ahead) (hlen : s.log.len = LOG_SIZE) :
    (after_entries s es).last_applied_entry.offset.toNat =
      recorded_offset s.log.apply s.last_applied_entry.offset.toNat es := by
  induction es generalizing s with
  | nil => rfl
  | cons x es ih =>
    have hnext := hdue.holds.2.2.1
    have hlog := after_entry_log s x
    have hrest := ih hdue.tail (by rw [hlog]; exact hlen)
    have hfirst : (after_entry s x).last_applied_entry.offset.toNat =
        if is_client x.type then entry_format.next s.log.len s.log.apply x
        else s.last_applied_entry.offset.toNat := by
      change (record_entry (s.set_apply _) x).last_applied_entry.offset.toNat = _
      unfold record_entry
      split
      · rw [hlen, LOG_SIZE_eq] at hnext
        change (UInt64.ofNat (entry_format.next s.log.len s.log.apply x)).toNat = _
        rw [hlen, LOG_SIZE_eq, UInt64.toNat_ofNat', Nat.mod_eq_of_lt (by omega)]
      · rfl
    rw [after_entries, List.foldl_cons, ← after_entries, hrest, hfirst, hlog, hlen]
    rfl

/-- The run of a server up to a snapshot. -/
theorem Applied.recorded (happlied : Applied prior xs s) :
    s.log.len = LOG_SIZE ∧ s.log.apply = entry_format.advance LOG_SIZE (offset_of prior) xs ∧
      s.last_applied_entry.offset.toNat = recorded_offset (offset_of prior) 0 xs := by
  induction happlied with
  | start hlen happly hlast => exact ⟨hlen, happly, by rw [hlast]; rfl⟩
  | other _ hlen happly hlast ih =>
    rw [hlen, happly, hlast]
    exact ih
  | apply _ hlog happly ih =>
    obtain ⟨hlen, happly', hlast⟩ := ih
    have hdone := hlog.apply_committed_entries_some
    obtain rfl := Option.some.inj (happly.symm.trans hdone)
    rw [after_entries_log, hlog.due.recorded hlen, recorded_offset_append, RecordFormat.advance_append,
      ← happly', ← hlast]
    exact ⟨hlen, by simp only [hlen], rfl⟩
  | config _ hdata hlen happly hlast ih =>
    rename_i x _ _ _ _
    obtain ⟨hlen', happly', hlast'⟩ := ih
    have hother : ∀ y ∈ [x], is_client y.type = false := by
      intro y hy
      obtain rfl := List.mem_singleton.mp hy
      simp [dare_log_entry_t.type, hdata, log_data.type, is_client]
    rw [hlen, happly, hlast, recorded_offset_append, recorded_offset_of_none _ _ hother,
      RecordFormat.advance_append, ← happly']
    exact ⟨hlen', rfl, hlast'⟩

end source

/-- The client entries of a history. -/
def clients (es : List dare_log_entry_t) : List dare_log_entry_t := es.filter (is_client ·.type)

/-- The entry that a call stores. -/
def stored_entry : apply_call → Option dare_log_entry_t
  | .proxy_store_cmd entry => some entry
  | _ => none

theorem clients_cons (x : dare_log_entry_t) (es : List dare_log_entry_t) :
    clients (x :: es) = if is_client x.type then x :: clients es else clients es :=
  List.filter_cons

theorem stored_of_calls (leader : Bool) (es : List dare_log_entry_t) :
    (es.flatMap (entry_calls leader)).filterMap stored_entry = clients es := by
  induction es with
  | nil => rfl
  | cons x es ih =>
    rw [List.flatMap_cons, List.filterMap_append, ih, clients_cons]
    cases hclient : is_client x.type with
    | true =>
      obtain ⟨call, hcalls, hother⟩ := entry_calls_client leader hclient
      have hnone : stored_entry call = none := by
        unfold stored_entry
        split
        · exact absurd rfl (hother _)
        · rfl
      have hsome : stored_entry (.proxy_store_cmd x) = some x := rfl
      simp [hcalls, hsome, hnone]
    | false => simp [entry_calls_other leader hclient]

theorem calls_of_clients (leader : Bool) (es : List dare_log_entry_t) :
    (clients es).flatMap (entry_calls leader) = es.flatMap (entry_calls leader) := by
  induction es with
  | nil => rfl
  | cons x es ih =>
    rw [clients_cons]
    cases hclient : is_client x.type with
    | true => simp [ih]
    | false => simp [ih, entry_calls_other leader hclient]

/-- The calls made for two sequences of entries are the same exactly when their client entries are. -/
theorem calls_eq_iff {leader : Bool} {xs ys : List dare_log_entry_t} :
    xs.flatMap (entry_calls leader) = ys.flatMap (entry_calls leader) ↔ clients xs = clients ys := by
  constructor
  · intro hcalls
    rw [← stored_of_calls leader xs, hcalls, stored_of_calls]
  · intro hclients
    rw [← calls_of_clients, hclients, calls_of_clients]

/-- The group when a server joins. The history is `es`. The snapshot is that of `source`, which has
    the entries `prior` from its own start and has applied `xs`. The head offset in the reply of the
    leader is behind `h` entries; the target of the log recovery has `n` entries, the first `c` behind
    the head are committed, and pruning has left them. -/
structure Group (es prior xs : List dare_log_entry_t) (head h n c : Nat) (source : apply_t)
    (target : dare_log_t) (m : Mem) : Prop where
  contents : prior ++ xs <+: es
  source : Applied prior xs source
  pruned : h ≤ n
  length : n ≤ es.length
  target : (n = 0 ∧ c = 0 ∧ head = 0 ∧ target.end_ = LOG_SIZE) ∨
    Target head ((es.take n).drop h) c target m

/-- The offset that the snapshot records is a boundary between the head and the recovered commit
    offset, and the client entries behind it are those that the snapshot does not contain. -/
def Resumable (es prior xs : List dare_log_entry_t) (head h n c : Nat) : Prop :=
  let live := (es.take n).drop h
  ∃ k ≤ recovered_count head live c,
    entry_format.AtRecord LOG_SIZE head live k (recorded_offset (offset_of prior) 0 xs) ∧
      clients ((live.take (recovered_count head live c)).drop k) =
        clients ((es.take (h + recovered_count head live c)).drop (prior ++ xs).length)

section last_client

variable {es prior ys zs : List dare_log_entry_t} {x : dare_log_entry_t} {head h n c : Nat}

/-- Entries that are no client entries may be left out. -/
theorem clients_drop {l : List dare_log_entry_t} (d : Nat)
    (hnone : ∀ y ∈ l.take d, is_client y.type = false) : clients (l.drop d) = clients l := by
  have hnil : clients (l.take d) = [] := by
    rw [clients, List.filter_eq_nil_iff]
    intro y hy
    simp [hnone y hy]
  conv_rhs => rw [← List.take_append_drop d l, clients, List.filter_append, ← clients, ← clients, hnil]
  rfl

/-- The plain case: the source has applied a client entry since its start, and the last one ends
    neither before the head offset of the reply nor behind the recovered commit offset. -/
theorem resumable_of_last_client (hcontents : prior ++ (ys ++ x :: zs) <+: es)
    (hclient : is_client x.type = true) (hnone : ∀ z ∈ zs, is_client z.type = false)
    (hhead : head = offset_of (es.take h)) (hlow : h ≤ (prior ++ ys).length + 1)
    (hhigh : (prior ++ ys).length + 1 ≤ h + recovered_count head ((es.take n).drop h) c)
    (hcount : h + recovered_count head ((es.take n).drop h) c ≤ n) :
    Resumable es prior (ys ++ x :: zs) head h n c := by
  obtain ⟨later, rfl⟩ := hcontents
  obtain ⟨es, hes⟩ : ∃ es, prior ++ (ys ++ x :: zs) ++ later = es := ⟨_, rfl⟩
  obtain ⟨j, hj⟩ : ∃ j, (prior ++ ys).length + 1 = j := ⟨_, rfl⟩
  rw [hes] at hhead hhigh hcount ⊢
  rw [hj] at hlow hhigh
  simp only [Resumable]
  generalize recovered_count head ((es.take n).drop h) c = count at hhigh hcount ⊢
  have hfirst : es.take j = prior ++ ys ++ [x] ∧ es.drop j = zs ++ later := by
    have hsplit : es = (prior ++ ys ++ [x]) ++ (zs ++ later) := by simp [← hes]
    have hlength : j = (prior ++ ys ++ [x]).length := by
      simp only [← hj, List.length_append, List.length_singleton]
    rw [hsplit, hlength]
    exact ⟨List.take_left, List.drop_left⟩
  have htake : ∀ {b : Nat}, h + b ≤ n → ((es.take n).drop h).take b = (es.take (h + b)).drop h := by
    intro b hb
    rw [List.take_drop, List.take_take, Nat.min_eq_left hb]
  refine ⟨j - h, by omega, .inl ?_, ?_⟩
  · -- both offsets are reached from the start of the history
    rw [htake (by omega), show h + (j - h) = j by omega, recorded_offset_eq _ _ hclient hnone, hhead,
      offset_of, offset_of, ← RecordFormat.advance_append, ← RecordFormat.advance_append, ← List.append_assoc,
      ← hfirst.1]
    congr 1
    conv_lhs => rw [← List.take_append_drop h (es.take j), List.take_take, Nat.min_eq_left hlow]
  · have hlength : (prior ++ (ys ++ x :: zs)).length = j + zs.length := by
      simp only [← hj, List.length_append, List.length_cons]
      omega
    rw [htake hcount, List.drop_drop, show h + (j - h) = j by omega, hlength, ← List.drop_drop]
    refine (clients_drop zs.length fun y hy => hnone y ?_).symm
    rw [List.drop_take, List.take_take, hfirst.2] at hy
    have hprefix : (zs ++ later).take (min zs.length (h + count - j)) <+: (zs ++ later).take zs.length :=
      List.take_prefix_take_left (Nat.min_le_left _ _)
    rw [List.take_left] at hprefix
    exact hprefix.subset hy

end last_client

section joins

variable {es prior xs : List dare_log_entry_t} {h n c i : Nat} {source : apply_t} {db : db_t} {m : Mem}
  {s s₁ : joining_t} {reply : reconf_rep_t} {data : dare_server_data_t} {logs : Nat → dare_log_t}
  {ok : Nat → Bool} {entries : Nat → Option Mem}

theorem rc_recover_sm_eq (hfresh : s.node.log = log_new) (hreply : ¬ reply.id < s.request_id)
    (hsm : rc_recover_sm (handle_server_join_reply s reply) (some (create_snapshot source db)) =
      some (s₁, 0)) :
    s₁.node.data.log =
        { log_new with head := reply.head, apply := source.last_applied_entry.offset.toNat } ∧
      s₁.node.running = s.node.running ∧ s₁.node.calls = s.node.calls := by
  simp only [handle_server_join_reply, if_neg hreply, rc_recover_sm, Option.map_eq_some_iff] at hsm
  obtain ⟨r, -, hs₁⟩ := hsm
  obtain rfl := congrArg Prod.fst hs₁
  refine ⟨?_, rfl, rfl⟩
  simp only [dare_server_data_t.set_log, hfresh, create_snapshot]

/-- The server that has recovered. -/
def recovered (s : joining_t) (data : dare_server_data_t) : apply_t := { s.node with data := data }

/-- After a successful recovery the server applies the entries behind its apply offset, if this is a
    boundary between its head and its commit offset. -/
theorem recovered_applies (hgroup : Group es prior xs reply.head h n c source (logs i) m)
    (hm : entries i = some m) (hfresh : s.node.log = log_new) (hrunning : s.node.running = true)
    (hreply : ¬ reply.id < s.request_id)
    (hsm : rc_recover_sm (handle_server_join_reply s reply) (some (create_snapshot source db)) =
      some (s₁, 0))
    (htarget : recover_target s₁.node.data ok = some i)
    (hlog : rc_recover_log s₁.node.data logs ok entries = (data, 0))
    (hfollower : IS_LEADER data = false) (hheader : LeavesHeader reply.head ((es.take n).drop h) c) :
    let live := (es.take n).drop h
    let count := recovered_count reply.head live c
    data.log.head = reply.head ∧ data.log.apply = recorded_offset (offset_of prior) 0 xs ∧
      entry_format.AtRecord LOG_SIZE reply.head live count data.log.commit ∧
      ∀ k ≤ count, entry_format.AtRecord LOG_SIZE reply.head live k data.log.apply →
        ∃ s', apply_committed_entries (recovered s₁ data) = some s' ∧
          s'.calls = (recovered s₁ data).calls ++
            ((live.take count).drop k).flatMap (entry_calls false) := by
  intro live count
  obtain ⟨hs₁, hrun, hcalls⟩ := rc_recover_sm_eq hfresh hreply hsm
  have hlast := hgroup.source.recorded.2.2
  rw [hlast] at hs₁
  obtain ⟨hempty, hsame⟩ | ⟨hnonempty, m', hm', hrebuilt⟩ := rc_recover_log_cases htarget hlog
  · -- an empty target: nothing is recovered
    rw [hs₁] at hsame hempty
    obtain ⟨rfl, rfl, hhead, -⟩ | ht := hgroup.target
    · have hlive : live = [] := by simp [live]
      have hcount : count = 0 := Nat.zero_min _
      rw [hsame, hlive, hcount, hhead]
      refine ⟨rfl, rfl, .inl rfl, fun k _ _ => ⟨recovered s₁ data, ?_, by simp⟩⟩
      refine apply_loop_stops ?_ (2 * (recovered s₁ data).log.len)
      change log_is_offset_larger data.log data.log.commit data.log.apply = false
      rw [hsame]
      simp [log_is_offset_larger, log_offset_end_distance, log_new]
    · have hend := ht.path.end_lt
      rw [ht.len] at hend
      exact absurd hempty (Nat.ne_of_lt hend)
  · obtain rfl : m = m' := Option.some.inj (hm.symm.trans hm')
    obtain ⟨-, -, -, hend⟩ | ht := hgroup.target
    · rw [hs₁] at hnonempty
      exact absurd hend hnonempty
    · have hr : Rebuilt reply.head live c (logs i) m data.log := by
        rw [hrebuilt, hs₁]
        exact rebuilt_of_recovered { log_new with head := reply.head, apply := _ } rfl ht
      refine ⟨hr.head_eq, by rw [hrebuilt, hs₁]; rfl, ?_, fun k hk hat => ?_⟩
      · obtain ⟨-, hcount, hcommit⟩ | ⟨hbehind, hcount, hcommit, -⟩ := hr.commit_cases ht
        · exact .inl (by rw [hcommit, show count = c from hcount])
        · have hcommitted := ht.committed
          obtain ⟨x, hx, hwrap⟩ := RecordFormat.getElem_before_wrap
            (show entry_format.before_wrap LOG_SIZE reply.head live < live.length from
              Nat.lt_of_lt_of_le hbehind hcommitted)
          refine .inr ⟨x, by rw [show count = _ from hcount]; exact hx, ?_⟩
          rw [hcommit, show count = _ from hcount]
          exact (if_neg (Nat.not_le.mpr hwrap)).symm
      · exact Rebuilt.applies (s := recovered s₁ data) ht hr (hrun.trans hrunning) hfollower hheader hk hat

/-- A server that has recovered with success resumes at an entry boundary between its head and its
    commit offset, and applies exactly the client entries behind the last one of the snapshot, if and
    only if the snapshot records such a boundary. This is for any history and any pruning; if the log
    of the target wraps and committed entries stand behind the wrap, the first of them has left its
    header at the end of the buffer. -/
theorem recovered_server_resumes (hgroup : Group es prior xs reply.head h n c source (logs i) m)
    (hm : entries i = some m) (hfresh : s.node.log = log_new) (hrunning : s.node.running = true)
    (hreply : ¬ reply.id < s.request_id)
    (hsm : rc_recover_sm (handle_server_join_reply s reply) (some (create_snapshot source db)) =
      some (s₁, 0))
    (htarget : recover_target s₁.node.data ok = some i)
    (hlog : rc_recover_log s₁.node.data logs ok entries = (data, 0))
    (hfollower : IS_LEADER data = false) (hheader : LeavesHeader reply.head ((es.take n).drop h) c) :
    let live := (es.take n).drop h
    let count := recovered_count reply.head live c
    ((entry_format.AtRecord LOG_SIZE data.log.head live count data.log.commit ∧
        ∃ k ≤ count, entry_format.AtRecord LOG_SIZE data.log.head live k data.log.apply) ∧
      ∃ s', apply_committed_entries (recovered s₁ data) = some s' ∧
        s'.calls = (recovered s₁ data).calls ++
          ((es.take (h + count)).drop (prior ++ xs).length).flatMap (entry_calls false)) ↔
    Resumable es prior xs reply.head h n c := by
  intro live count
  obtain ⟨hhead, happly, hcommit, happlies⟩ :=
    recovered_applies hgroup hm hfresh hrunning hreply hsm htarget hlog hfollower hheader
  rw [hhead]
  constructor
  · rintro ⟨⟨-, k, hk, hat⟩, s', hs', hcalls⟩
    obtain ⟨s'', hs'', hcalls'⟩ := happlies k hk hat
    obtain rfl := Option.some.inj (hs'.symm.trans hs'')
    exact ⟨k, hk, happly ▸ hat, calls_eq_iff.mp (List.append_cancel_left (hcalls'.symm.trans hcalls))⟩
  · rintro ⟨k, hk, hat, hclients⟩
    rw [← happly] at hat
    obtain ⟨s', hs', hcalls⟩ := happlies k hk hat
    exact ⟨⟨hcommit, k, hk, hat⟩, s', hs', by rw [hcalls, calls_eq_iff.mpr hclients]⟩

end joins

/-- The first CONNECT entry of a group. -/
def connect_data : log_data := .cmd ⟨CONNECT, by decide⟩ ⟨[], by decide⟩

def first_connect : dare_log_entry_t := ⟨1, 1, 0, 0, connect_data⟩

/-- A log with this entry, committed and applied. -/
def connect_log : dare_log_t :=
  { (log_append_entry log_new 1 0 0 connect_data).1 with commit := 48, apply := 48 }

/-- Server `idx` of three that are connected with each other. -/
def member (idx : Nat) (log : dare_log_t) (last_applied_entry : dare_log_entry_det_t) : apply_t where
  data :=
    { (init_server_data idx 3).get (by
        unfold init_server_data
        rfl) with
      servers := fun _ => ⟨⟨0, 0⟩, 0, 0, .LR_GET_WRITE, true, 0, true, false⟩
      log := log }
  req_id := 0
  clt_id := 0
  die_af_commit := false
  last_applied_entry := last_applied_entry
  last_cmt_write_csm_idx := 0
  running := true
  calls := []

/-- Server 2 joins. -/
def joiner : joining_t := ⟨member 2 log_new ⟨0, 0, 0⟩, 0, 0, initialize_db, []⟩

/-- The reply of the leader, with its head offset. -/
def join_reply (head : Nat) : reconf_rep_t := ⟨0, 2, joiner.node.data.cid, 0, head⟩

/-- The first two steps of the recovery of server 2, with the snapshot of `source`. -/
def join_sm (head : Nat) (source : apply_t) (db : db_t) : Option (joining_t × Int) :=
  rc_recover_sm (handle_server_join_reply joiner (join_reply head)) (some (create_snapshot source db))

/-- The third step, with the log of server 1. -/
def join_log (s : joining_t) (log : dare_log_t) : dare_server_data_t × Int :=
  rc_recover_log s.node.data (fun _ => log) (fun i => decide (i = 1)) fun _ => some log.mem

def send_data : log_data := .cmd ⟨SEND, by decide⟩ ⟨[104, 105], by decide⟩

/-- The history of a group: the CONNECT entry, a NOOP entry and a SEND entry. -/
def history : List dare_log_entry_t := [first_connect, ⟨2, 1, 0, 0, .noop⟩, ⟨3, 1, 0, 0, send_data⟩]

/-- The log with the given offsets. -/
def history_log (head apply commit : Nat) : dare_log_t :=
  { log_of history with head := head, apply := apply, commit := commit }

theorem history_path (head apply commit : Nat) : Path (history_log head apply commit) 0 history := by
  have hpath : Path (log_of history) 0 history := path_log_of (by decide) (by decide) (by decide +kernel)
  exact hpath.congr_log rfl rfl rfl

/-- The record of the entry. -/
def connect_db : db_t := store_record initialize_db true [0, 0, 4, 0]

/-- The log of server 1, which has pruned the first entry. -/
def pruned_history : dare_log_t := { log_of history with head := 48, apply := 48, commit := 146 }

/-- Server 0 has applied the first two entries; they were committed when it did. -/
theorem applied_first_two : Applied [] (history.take 2) (member 0 (history_log 0 96 96) ⟨1, 1, 48⟩) := by
  have hlog : Backlog (member 0 (history_log 0 0 96) ⟨0, 0, 0⟩) (history.take 2) (history.drop 2) := by
    refine ⟨rfl, history_path 0 0 96, by decide +kernel, fun x _ hleader => ?_⟩
    exact absurd hleader (by decide +kernel)
  have hstart : Applied [] [] (member 0 (history_log 0 0 96) ⟨0, 0, 0⟩) :=
    .start (by decide +kernel) rfl rfl
  refine (hstart.apply hlog hlog.apply_committed_entries_some).other ?_ ?_ ?_
  · rw [after_entries_log]
    rfl
  · decide +kernel
  · decide +kernel

/-- It gives the snapshot, and server 1 gives the log. -/
theorem history_group :
    Group history [] (history.take 2) (join_reply 48).head 1 3 2 (member 0 (history_log 0 96 96) ⟨1, 1, 48⟩)
      pruned_history pruned_history.mem where
  contents := List.take_prefix 2 history
  source := applied_first_two
  pruned := by decide
  length := by decide
  target := by
    have hlen : pruned_history.len = LOG_SIZE := by decide +kernel
    have hpath : Path (history_log 48 48 146) 0 ([first_connect] ++ history.drop 1) := history_path 48 48 146
    exact .inr ⟨hlen, hpath.behind, by decide, by decide +kernel, fun _ _ _ => rfl⟩

theorem snapshot_of_first_two_resumes :
    ∃ s₁ data, join_sm 48 (member 0 (history_log 0 96 96) ⟨1, 1, 48⟩) connect_db = some (s₁, 0) ∧
      join_log s₁ pruned_history = (data, 0) ∧
      (entry_format.AtRecord LOG_SIZE data.log.head (history.drop 1) 2 data.log.commit ∧
        ∃ k ≤ 2, entry_format.AtRecord LOG_SIZE data.log.head (history.drop 1) k data.log.apply) ∧
      ∃ s', apply_committed_entries (recovered s₁ data) = some s' ∧
        s'.calls = (recovered s₁ data).calls ++ (history.drop 2).flatMap (entry_calls false) := by
  obtain ⟨s₁, hsm, htarget, hcode, hfollower⟩ :
      ∃ s₁, join_sm 48 (member 0 (history_log 0 96 96) ⟨1, 1, 48⟩) connect_db = some (s₁, 0) ∧
        recover_target s₁.node.data (fun i => decide (i = 1)) = some 1 ∧
        (join_log s₁ pruned_history).2 = 0 ∧
        IS_LEADER (join_log s₁ pruned_history).1 = false :=
    ⟨_, rfl, by decide +kernel, by decide +kernel, by decide +kernel⟩
  have hcount : recovered_count (join_reply 48).head ((history.take 3).drop 1) 2 = 2 := by decide +kernel
  have hlog : join_log s₁ pruned_history = ((join_log s₁ pruned_history).1, 0) :=
    Prod.ext rfl hcode
  have htaken : [] ++ ([] ++ first_connect :: [⟨2, 1, 0, 0, .noop⟩]) <+: history := List.take_prefix 2 history
  have hresumable : Resumable history [] (history.take 2) (join_reply 48).head 1 3 2 :=
    resumable_of_last_client htaken (by decide) (by decide) (by decide +kernel) (by decide)
      (by rw [hcount]; decide) (by rw [hcount])
  have hresumes := (recovered_server_resumes history_group
    (show (fun _ : Nat => some pruned_history.mem) 1 = some pruned_history.mem from rfl) rfl rfl (by decide)
    hsm htarget hlog hfollower (fun hcut => absurd hcut (by decide +kernel))).mpr hresumable
  rw [hcount] at hresumes
  exact ⟨s₁, _, hsm, hlog, hresumes⟩

/-- A log with the entry, two NOOP entries, and the HEAD entry that the leader has appended when all of
    these were applied and it has pruned all but the last one. -/
def pruned_log : dare_log_t :=
  let log := (log_append_entry connect_log 1 0 0 .noop).1
  let log := (log_append_entry log 1 0 0 .noop).1
  let log := (log_append_entry { log with head := log.tail } 1 0 0 (.head (UInt64.ofNat log.tail))).1
  { log with apply := 0, commit := log.end_ }

/-- The entry of the snapshot is applied again, when the snapshot is that of a server which has
    recovered itself and has applied no client entry since. And when the log is pruned behind the last
    client entry, the apply offset lies before the head of the log. -/
theorem recovered_server_repeats_entry :
    Applied [first_connect] [] (member 0 connect_log ⟨0, 0, 0⟩) ∧
    ((join_sm 0 (member 0 connect_log ⟨0, 0, 0⟩) connect_db).map (·.1.effects) =
        some [.do_action_connect 0] ∧
      ((join_sm 0 (member 0 connect_log ⟨0, 0, 0⟩) connect_db).bind fun r =>
        (apply_committed_entries (recovered r.1 (join_log r.1 connect_log).1)).map (·.calls)) =
        some [.proxy_store_cmd first_connect, .proxy_do_action 0 CONNECT 0 []]) ∧
    (apply_committed_entries (member 0 pruned_log ⟨0, 0, 0⟩)).bind (fun source =>
      (join_sm pruned_log.head source connect_db).map fun r =>
        let log := (join_log r.1 pruned_log).1.log
        (log.head, log.apply, log.commit)) = some (96, 48, 192) :=
  ⟨.start rfl (by decide +kernel) rfl, by decide +kernel⟩

end dare.server
