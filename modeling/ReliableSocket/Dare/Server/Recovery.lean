import ReliableSocket.Dare.Log.Run
import ReliableSocket.Dare.Server.Apply
import ReliableSocket.Proxy.Storage

open memory ring dare.log proxy

namespace dare.server

structure snapshot_t where
  last_entry : dare_log_entry_det_t
  len : UInt32
  data : List UInt8
deriving DecidableEq

/-- The snapshot that `poll_sm_requests` makes when there is none. -/
def create_snapshot (s : apply_t) (db : db_t) : snapshot_t where
  last_entry := s.last_applied_entry
  len := db.records_len
  data := dump_records db

/-- The reply of the leader to a server that joins. -/
structure reconf_rep_t where
  id : UInt64
  idx : Nat
  cid : dare_cid_t
  cid_idx : UInt64
  head : Nat

/-- A server that joins, with its record store and what loading a snapshot has done to its guest. -/
structure joining_t where
  node : apply_t
  request_id : UInt64
  cid_idx : UInt64
  db : db_t
  effects : List effect

/-- Old replies are ignored. -/
def handle_server_join_reply (s : joining_t) (reply : reconf_rep_t) : joining_t :=
  if reply.id < s.request_id then s
  else
    { s with
      request_id := s.request_id + 1
      cid_idx := reply.cid_idx
      node :=
        { s.node with
          data :=
            { s.node.data with
              idx := reply.idx
              cid := reply.cid
              log := { s.node.log with head := reply.head }
              cid_offset := reply.head } } }

/-- The snapshot is what the read from the target has got, nothing if the read failed. Loading it may
    not end; there is no result then. -/
def rc_recover_sm (s : joining_t) (snapshot : Option snapshot_t) : Option (joining_t × Int) :=
  let data := { s.node.data with ssn := s.node.data.ssn + 1 }
  match snapshot with
  | none => some ({ s with node := { s.node with data := data } }, -1)
  | some snapshot =>
    (stablestorage_load_records (fun b => snapshot.data.getD b 0) snapshot.len s.db).map fun r =>
      ({ s with
          db := r.1
          effects := s.effects ++ r.2
          node :=
            { s.node with
              data := data.set_log { data.log with apply := snapshot.last_entry.offset.toNat } } }, 0)

/-- The first server whose offsets could be read. -/
def recover_target (data : dare_server_data_t) (ok : Nat → Bool) : Option Nat :=
  (List.range (get_group_size data.cid)).find? fun i =>
    decide (i ≠ data.idx) && data.is_on i && (data.servers i).rc_connected && ok i

/-- The offsets taken over from the target. A log that wraps is cut at the end of the buffer. -/
def recover_offsets (log : dare_log_t) (rmt_offsets : log_offsets_t) : log_offsets_t :=
  let log := { log with end_ := rmt_offsets.end_ }
  let rmt_offsets :=
    if 0 < rmt_offsets.end_ ∧ rmt_offsets.end_ < log.head then { rmt_offsets with end_ := 0 }
    else rmt_offsets
  if log_is_offset_larger log rmt_offsets.commit rmt_offsets.end_ then
    { rmt_offsets with commit := rmt_offsets.end_ }
  else rmt_offsets

/-- `logs` are the logs of the servers when their offsets are read, `ok` says which of these reads
    succeed, and `entries` is the memory of a log when its entries are read, if this read succeeds. -/
def rc_recover_log (data : dare_server_data_t) (logs : Nat → dare_log_t) (ok : Nat → Bool)
    (entries : Nat → Option Mem) : dare_server_data_t × Int :=
  let data := { data with ssn := data.ssn + 1 }
  match recover_target data ok with
  | none => (data, -1)
  | some target =>
    let data := data.set_log_offsets target ⟨(logs target).commit, (logs target).end_⟩
    if (logs target).end_ = data.log.len then (data, 0)
    else
      let rmt_offsets := recover_offsets data.log (data.log_offsets target)
      let data := data.set_log_offsets target rmt_offsets
      let data := data.set_log { data.log with end_ := rmt_offsets.end_, commit := rmt_offsets.commit }
      let len := log_offset_end_distance data.log data.log.head
      let data := { data with ssn := data.ssn + 1 }
      match entries target with
      | none => (data, -1)
      | some m =>
        (data.set_log
          { data.log with mem := copy m data.log.mem (ENTRIES_OFFSET + data.log.head) len }, 0)

/-- How many of the `c` committed entries `live`, read from `head` on, are recovered: those behind the
    end of the buffer are not. -/
def recovered_count (head : Nat) (live : List dare_log_entry_t) (c : Nat) : Nat :=
  min c (entry_format.before_wrap LOG_SIZE head live)

/-- The target has the entries `live` from `head` on, the first `c` of them committed; `m` is its
    memory when these are read, and has them still. -/
structure Target (head : Nat) (live : List dare_log_entry_t) (c : Nat) (target : dare_log_t) (m : Mem) :
    Prop where
  len : target.len = LOG_SIZE
  path : Path target head live
  committed : c ≤ live.length
  commit : target.commit = entry_format.advance LOG_SIZE head (live.take c)
  kept : ∀ b, b < LOG_SIZE → ring.dist LOG_SIZE head b < entry_format.span LOG_SIZE head (live.take c) →
    m (ENTRIES_OFFSET + b) = target.entries b

/-- The offsets and the memory that `rc_recover_log` leaves. -/
structure Rebuilt (head : Nat) (live : List dare_log_entry_t) (c : Nat) (target : dare_log_t) (m : Mem)
    (log : dare_log_t) : Prop where
  len : log.len = LOG_SIZE
  head_eq : log.head = head
  end_eq : log.end_ =
    if entry_format.before_wrap LOG_SIZE head live < live.length then 0 else target.end_
  commit_eq : log.commit =
    if entry_format.before_wrap LOG_SIZE head live < c then 0 else target.commit
  entries : ∀ b, head ≤ b →
    b < (if entry_format.before_wrap LOG_SIZE head live < live.length then LOG_SIZE else target.end_) →
    log.entries b = m (ENTRIES_OFFSET + b)

section target

variable {head c k : Nat} {live : List dare_log_entry_t} {target log : dare_log_t} {m : Mem}

theorem Target.wrap_cases (ht : Target head live c target m) (hk : k ≤ live.length) :
    (k ≤ entry_format.before_wrap LOG_SIZE head live ∧
      entry_format.advance LOG_SIZE head (live.take k) =
        head + entry_format.span LOG_SIZE head (live.take k)) ∨
    (entry_format.before_wrap LOG_SIZE head live < k ∧
      0 < entry_format.advance LOG_SIZE head (live.take k) ∧
      entry_format.advance LOG_SIZE head (live.take k) + LOG_SIZE =
        head + entry_format.span LOG_SIZE head (live.take k)) := by
  have hstart := ht.path.start_le
  have hholds := ht.path.holds
  have hspan := ht.path.span_lt
  rw [ht.len] at hstart hholds hspan
  exact RecordFormat.wrap_cases hstart hholds hspan hk

/-- The entries of the target take less than the whole buffer, the first ones not more than all. -/
theorem Target.span_take (ht : Target head live c target m) (k : Nat) :
    entry_format.span LOG_SIZE head (live.take k) +
      entry_format.span LOG_SIZE (entry_format.advance LOG_SIZE head (live.take k)) (live.drop k) =
        entry_format.span LOG_SIZE head live ∧
    entry_format.span LOG_SIZE head live < LOG_SIZE := by
  have hspan := ht.path.span_lt
  rw [ht.len] at hspan
  refine ⟨?_, hspan⟩
  rw [← RecordFormat.span_append, List.take_append_drop]

theorem Target.holds_take (ht : Target head live c target m) (k : Nat) :
    entry_format.Holds LOG_SIZE target.entries head (live.take k) ∧
      entry_format.advance LOG_SIZE head (live.take k) ≤ LOG_SIZE := by
  have hstart := ht.path.start_le
  have hholds := ht.path.holds
  rw [← List.take_append_drop k live, RecordFormat.holds_append] at hholds
  rw [ht.len] at hstart hholds
  exact ⟨hholds.1, RecordFormat.advance_le hholds.1 hstart⟩

/-- The end of the target's log, before and behind the end of the buffer. -/
theorem Target.end_cases (ht : Target head live c target m) :
    (entry_format.before_wrap LOG_SIZE head live = live.length ∧
      target.end_ = head + entry_format.span LOG_SIZE head live) ∨
    (entry_format.before_wrap LOG_SIZE head live < live.length ∧ 0 < target.end_ ∧
      target.end_ + LOG_SIZE = head + entry_format.span LOG_SIZE head live) := by
  have hend := ht.path.reaches
  rw [ht.len] at hend
  have hcases := ht.wrap_cases (Nat.le_refl live.length)
  have hle : entry_format.before_wrap LOG_SIZE head live ≤ live.length := RecordFormat.before_wrap_le ..
  rw [List.take_length, hend] at hcases
  omega

/-- A log that wraps is cut at the end of the buffer, and a commit offset behind the cut is moved to
    it. -/
theorem Target.recover_offsets_eq (ht : Target head live c target m) (hlen : log.len = LOG_SIZE)
    (hhead : log.head = head) :
    recover_offsets log ⟨target.commit, target.end_⟩ =
      ⟨if entry_format.before_wrap LOG_SIZE head live < c then 0 else target.commit,
        if entry_format.before_wrap LOG_SIZE head live < live.length then 0 else target.end_⟩ := by
  subst hhead
  have hend := ht.path.end_lt
  have hcommitted := ht.committed
  have hcut := ht.end_cases
  have hcommit := ht.wrap_cases ht.committed
  have hle := (ht.holds_take c).2
  obtain ⟨hspan, hspan_lt⟩ := ht.span_take c
  rw [← ht.commit] at hcommit hle
  rw [ht.len] at hend
  have hdist : ∀ offset, log_offset_end_distance { log with end_ := target.end_ } offset =
      ring.dist LOG_SIZE offset target.end_ := by
    intro offset
    rw [← hlen]
    exact end_distance_eq (show target.end_ < log.len by omega) offset
  have hfar := dist_cases LOG_SIZE target.commit target.end_
  simp only [recover_offsets, log_is_offset_larger, hdist]
  by_cases hwrap : entry_format.before_wrap LOG_SIZE log.head live < live.length
  · have hzero := dist_cases LOG_SIZE 0 target.end_
    rw [if_pos (show 0 < target.end_ ∧ target.end_ < log.head by omega), if_pos hwrap]
    by_cases hbehind : entry_format.before_wrap LOG_SIZE log.head live < c
    · rw [if_pos (decide_eq_true (by simp only; omega)), if_pos hbehind]
    · rw [if_neg (by simp only [decide_eq_true_eq]; omega), if_neg hbehind]
  · rw [if_neg (show ¬ (0 < target.end_ ∧ target.end_ < log.head) by omega), if_neg hwrap,
      if_neg (by simp), if_neg (show ¬ entry_format.before_wrap LOG_SIZE log.head live < c by omega)]

/-- The bytes that `rc_recover_log` reads: all entries, or those before the end of the buffer. -/
theorem Rebuilt.distance (ht : Target head live c target m) (hr : Rebuilt head live c target m log)
    (hk : k ≤ entry_format.before_wrap LOG_SIZE head live) :
    log_offset_end_distance log (entry_format.advance LOG_SIZE head (live.take k)) +
        entry_format.span LOG_SIZE head (live.take k) =
      (if entry_format.before_wrap LOG_SIZE head live < live.length then LOG_SIZE - head
        else entry_format.span LOG_SIZE head live) ∧
    log_offset_end_distance log (entry_format.advance LOG_SIZE head (live.take k)) < LOG_SIZE ∧
    log.end_ < log.len := by
  have hend := ht.path.end_lt
  have hcut := ht.end_cases
  have hle := (ht.holds_take k).2
  have hoffset := RecordFormat.advance_take_before_wrap hk
  obtain ⟨hspan, hspan_lt⟩ := ht.span_take k
  have hlen := hr.len
  have hend_eq := hr.end_eq
  rw [ht.len] at hend
  have hlt : log.end_ < log.len := by
    rw [hend_eq, hlen]
    split <;> omega
  rw [end_distance_eq hlt, hlen, hend_eq]
  refine ⟨?_, ?_, by rwa [hend_eq, hlen] at hlt⟩
  all_goals
    split
    · have hfar := dist_cases LOG_SIZE (entry_format.advance LOG_SIZE head (live.take k)) 0
      omega
    · have hfar := dist_cases LOG_SIZE (entry_format.advance LOG_SIZE head (live.take k)) target.end_
      omega

/-- The committed bytes of the target before the end of the buffer are recovered. -/
theorem Rebuilt.entries_eq (ht : Target head live c target m) (hr : Rebuilt head live c target m log)
    {b : Nat} (hlow : head ≤ b) (hhigh : b < LOG_SIZE)
    (hnear : b < head + entry_format.span LOG_SIZE head (live.take c)) :
    log.entries b = target.entries b := by
  have hcut := ht.end_cases
  obtain ⟨hspan, -⟩ := ht.span_take c
  have hdist := dist_cases LOG_SIZE head b
  rw [hr.entries b hlow (by split <;> omega)]
  exact ht.kept b hhigh (by omega)

/-- The recovered log holds the committed entries before the end of the buffer. -/
theorem Rebuilt.holds (ht : Target head live c target m) (hr : Rebuilt head live c target m log) :
    entry_format.Holds LOG_SIZE log.entries head (live.take (recovered_count head live c)) := by
  have hcount : recovered_count head live c ≤ entry_format.before_wrap LOG_SIZE head live :=
    Nat.min_le_right _ _
  obtain ⟨hholds, hle⟩ := ht.holds_take (recovered_count head live c)
  have hoffset := RecordFormat.advance_take_before_wrap hcount
  have hstart := ht.path.start_le
  rw [ht.len] at hstart
  obtain ⟨hsum, hlt⟩ := ht.span_take (recovered_count head live c)
  have hless : entry_format.span LOG_SIZE head (live.take (recovered_count head live c)) ≤
      entry_format.span LOG_SIZE head (live.take c) := by
    have hsplit : live.take c = live.take (recovered_count head live c) ++
        (live.take c).drop (recovered_count head live c) := by
      conv_lhs => rw [← List.take_append_drop (recovered_count head live c) (live.take c),
        List.take_take, Nat.min_eq_left (show recovered_count head live c ≤ c from Nat.min_le_left _ _)]
    rw [hsplit, RecordFormat.span_append]
    omega
  refine RecordFormat.holds_congr hstart (by omega) (fun b hb hnear => ?_) hholds
  have hdist := dist_cases LOG_SIZE head b
  exact (hr.entries_eq ht (by omega) hb (by omega)).symm

/-- The commit offset is that of the last recovered entry, or it is at the cut. -/
theorem Rebuilt.commit_cases (ht : Target head live c target m) (hr : Rebuilt head live c target m log) :
    (c ≤ entry_format.before_wrap LOG_SIZE head live ∧ recovered_count head live c = c ∧
      log.commit = entry_format.advance LOG_SIZE head (live.take c)) ∨
    (entry_format.before_wrap LOG_SIZE head live < c ∧
      recovered_count head live c = entry_format.before_wrap LOG_SIZE head live ∧
      log.commit = 0 ∧ log.end_ = 0) := by
  have hcommitted := ht.committed
  unfold recovered_count
  by_cases hbehind : entry_format.before_wrap LOG_SIZE head live < c
  · right
    rw [hr.commit_eq, hr.end_eq, if_pos hbehind, if_pos (by omega)]
    exact ⟨hbehind, Nat.min_eq_right (by omega), rfl, rfl⟩
  · left
    rw [hr.commit_eq, if_neg hbehind, ht.commit]
    exact ⟨by omega, Nat.min_eq_left (by omega), rfl⟩

end target

/-- If committed entries are cut off, the first of them has left its header before the cut. -/
def LeavesHeader (head : Nat) (live : List dare_log_entry_t) (c : Nat) : Prop :=
  entry_format.before_wrap LOG_SIZE head live < c →
    entry_format.advance LOG_SIZE head (live.take (entry_format.before_wrap LOG_SIZE head live)) +
      SIZEOF_ENTRY ≤ LOG_SIZE

section applies

variable {head c k : Nat} {live : List dare_log_entry_t} {target : dare_log_t} {m : Mem} {s : apply_t}

/-- The entries that are recovered from a boundary on wait to be applied. -/
theorem Rebuilt.due (ht : Target head live c target m) (hr : Rebuilt head live c target m s.log)
    (hrunning : s.running = true) (hfollower : IS_LEADER s.data = false)
    (hk : k ≤ recovered_count head live c)
    (happly : s.log.apply = entry_format.advance LOG_SIZE head (live.take k)) :
    Due s ((live.take (recovered_count head live c)).drop k) (log_offset_end_distance s.log
      (entry_format.advance LOG_SIZE head (live.take (recovered_count head live c)))) := by
  have hcount : recovered_count head live c ≤ entry_format.before_wrap LOG_SIZE head live :=
    Nat.min_le_right _ _
  have hlength : entry_format.before_wrap LOG_SIZE head live ≤ live.length :=
    RecordFormat.before_wrap_le ..
  obtain ⟨hfirst, hfirst_lt, hend⟩ := hr.distance ht (Nat.le_trans hk hcount)
  obtain ⟨hlast, -, -⟩ := hr.distance ht hcount
  have htake : (live.take (recovered_count head live c)).take k = live.take k := by
    rw [List.take_take, Nat.min_eq_left hk]
  have hsplit : entry_format.span LOG_SIZE head (live.take (recovered_count head live c)) =
      entry_format.span LOG_SIZE head (live.take k) + entry_format.span LOG_SIZE s.log.apply
        ((live.take (recovered_count head live c)).drop k) := by
    rw [happly, ← htake, ← RecordFormat.span_append, List.take_append_drop]
  have hheld := RecordFormat.holds_at (hr.holds ht) (k := k)
    (by rw [List.length_take]; omega) (.inl (by rw [htake, ← happly]))
  have hdistance : log_offset_end_distance s.log s.log.apply =
      entry_format.span LOG_SIZE s.log.apply ((live.take (recovered_count head live c)).drop k) +
        log_offset_end_distance s.log
          (entry_format.advance LOG_SIZE head (live.take (recovered_count head live c))) := by
    rw [happly] at hsplit ⊢
    omega
  refine ⟨hrunning, hend, ?_, ?_, ?_, ?_, fun _ => ?_, fun x _ => ?_⟩
  · rw [hr.len, happly]
    exact (ht.holds_take k).2
  · rw [hr.len]
    exact hheld.1
  · rw [hr.len]
    exact hdistance
  · rw [hr.len, ← hdistance, happly]
    exact hfirst_lt
  · obtain ⟨-, heq, hcommit⟩ | ⟨-, -, hcommit, hzero⟩ := hr.commit_cases ht
    · rw [heq, hcommit]
    · rw [hcommit, end_distance_eq hend, hzero, dist_self]
      exact Nat.zero_le _
  · intro hleader
    rw [hfollower] at hleader
    cases hleader

/-- Behind the last recovered entry the loop meets the header of the entry that is cut off, goes on at
    the beginning of the buffer and stops there. -/
theorem Rebuilt.stops_at_cut (ht : Target head live c target m) (hr : Rebuilt head live c target m s.log)
    (hrunning : s.running = true) (hbehind : entry_format.before_wrap LOG_SIZE head live < c)
    (hheader : LeavesHeader head live c)
    (happly : s.log.apply = entry_format.advance LOG_SIZE head
      (live.take (entry_format.before_wrap LOG_SIZE head live))) (fuel : Nat) :
    apply_loop (fuel + 2) s = some (s.set_apply 0) := by
  have hfits := hheader hbehind
  have hcommitted := ht.committed
  obtain ⟨x, hx, hwrap⟩ := RecordFormat.getElem_before_wrap
    (show entry_format.before_wrap LOG_SIZE head live < live.length by omega)
  have hholds := ht.path.holds
  have hcommit := ht.wrap_cases ht.committed
  have hoffset := RecordFormat.advance_take_before_wrap
    (Nat.le_refl (entry_format.before_wrap LOG_SIZE head live))
  obtain ⟨hless, -⟩ | ⟨-, -, hzero, hend⟩ := hr.commit_cases ht
  · omega
  set w := entry_format.before_wrap LOG_SIZE head live with hw
  rw [← happly] at hfits hwrap hoffset
  obtain ⟨hlt, rfl⟩ := List.getElem?_eq_some_iff.mp hx
  rw [← List.take_append_drop w live, RecordFormat.holds_append, List.drop_eq_getElem_cons hlt, ht.len,
    ← happly] at hholds
  have hleft : HasHeader s.log.entries s.log.apply live[w] := by
    refine entry_format.header_congr (fun b hlow hhigh => ?_) (hholds.2.1 hfits)
    have hb : b < LOG_SIZE := Nat.lt_of_lt_of_le hhigh hfits
    exact (hr.entries_eq ht (by omega) hb (by omega)).symm
  have hsmall : s.log.end_ < s.log.len := by
    rw [hend, hr.len, LOG_SIZE_eq]
    decide
  have hdist : ∀ offset, log_offset_end_distance s.log offset = ring.dist LOG_SIZE offset 0 := by
    intro offset
    rw [end_distance_eq hsmall, hr.len, hend]
  have hfar := dist_cases LOG_SIZE s.log.apply 0
  unfold SIZEOF_ENTRY at hfits
  have hpos : 0 < s.log.apply := by
    have hcut := ht.end_cases
    obtain ⟨-, hspan⟩ := ht.span_take w
    omega
  have hlarger : log_is_offset_larger s.log s.log.commit s.log.apply = true := by
    rw [log_is_offset_larger, decide_eq_true_eq, hdist, hdist, hzero, dist_self]
    omega
  have hget : log_get_entry s.log s.log.apply = some s.log.apply := by
    have hempty : is_log_empty s.log = false := decide_eq_false (Nat.ne_of_lt hsmall)
    have hnonzero : log_offset_end_distance s.log s.log.apply ≠ 0 := by
      rw [hdist]
      omega
    have hfit : log_fit_entry_header s.log s.log.apply = true := by
      unfold log_fit_entry_header SIZEOF_ENTRY
      rw [decide_eq_true_eq, hr.len]
      omega
    simp [log_get_entry, hempty, hnonzero, hfit]
  have hfit : log_fit_entry (s.set_apply s.log.apply).log (s.set_apply s.log.apply).log.apply
      s.log.apply = false := by
    change log_fit_entry s.log s.log.apply s.log.apply = false
    rw [entry_size] at hwrap
    rw [log_fit_entry, hleft.len, hr.len, decide_eq_false_iff_not]
    omega
  rw [apply_loop, hrunning, hlarger, hget]
  simp only [Bool.and_self, if_true, hfit, Bool.not_false]
  refine apply_loop_stops ?_ fuel
  rw [log_is_offset_larger, decide_eq_false_iff_not]
  change ¬ log_offset_end_distance s.log s.log.commit < log_offset_end_distance s.log 0
  rw [hdist, hdist, hzero, dist_self]
  omega

/-- A boundary that is recovered is the offset behind an entry, or it is the cut. -/
theorem Rebuilt.boundary_cases (hr : Rebuilt head live c target m s.log)
    (hk : k ≤ recovered_count head live c)
    (hat : entry_format.AtRecord LOG_SIZE head live k s.log.apply) :
    s.log.apply = entry_format.advance LOG_SIZE head (live.take k) ∨
      (k = recovered_count head live c ∧ s.log.apply = 0 ∧ s.log.end_ = 0) := by
  have hcount : recovered_count head live c ≤ entry_format.before_wrap LOG_SIZE head live :=
    Nat.min_le_right _ _
  obtain hat | ⟨x, hx, hat⟩ := hat
  · exact .inl hat
  obtain ⟨-, hplace, -⟩ | ⟨hwrap, hplace, -⟩ :=
    entry_format.write_cases LOG_SIZE (entry_format.advance LOG_SIZE head (live.take k)) x
  · exact .inl (hat.trans hplace)
  · right
    have hfits : ¬ k < entry_format.before_wrap LOG_SIZE head live := fun hlt =>
      absurd (RecordFormat.fits_of_lt_before_wrap hlt hx) (by omega)
    have hlength : k < live.length := (List.getElem?_eq_some_iff.mp hx).1
    refine ⟨by omega, hat.trans hplace, ?_⟩
    rw [hr.end_eq, if_pos (by omega)]

/-- The recovered server applies the recovered entries from its apply offset on, if this is one of
    their boundaries. -/
theorem Rebuilt.applies (ht : Target head live c target m) (hr : Rebuilt head live c target m s.log)
    (hrunning : s.running = true) (hfollower : IS_LEADER s.data = false)
    (hheader : LeavesHeader head live c) (hk : k ≤ recovered_count head live c)
    (hat : entry_format.AtRecord LOG_SIZE head live k s.log.apply) :
    ∃ s', apply_committed_entries s = some s' ∧ s'.calls = s.calls ++
      ((live.take (recovered_count head live c)).drop k).flatMap (entry_calls false) := by
  obtain happly | ⟨rfl, happly, hend⟩ := hr.boundary_cases hk hat
  · have hdue := hr.due ht hrunning hfollower hk happly
    have hcalls := after_entries_calls s ((live.take (recovered_count head live c)).drop k)
    have hlog := after_entries_log s ((live.take (recovered_count head live c)).drop k)
    have hlength := length_le_span s.log.len s.log.apply
      ((live.take (recovered_count head live c)).drop k)
    have hspan := hdue.span_lt
    unfold SIZEOF_ENTRY at hlength
    have hbehind : entry_format.advance s.log.len s.log.apply
        ((live.take (recovered_count head live c)).drop k) =
        entry_format.advance LOG_SIZE head (live.take (recovered_count head live c)) := by
      have htake : (live.take (recovered_count head live c)).take k = live.take k := by
        rw [List.take_take, Nat.min_eq_left hk]
      rw [hr.len, happly, ← htake, ← RecordFormat.advance_append, List.take_append_drop]
    rw [hbehind] at hlog
    rw [hfollower] at hcalls
    obtain ⟨hdone, left, hleft, hloop⟩ := hdue.apply_loop_eq
      (show 2 * ((live.take (recovered_count head live c)).drop k).length ≤ 2 * s.log.len + 1 by omega)
    obtain ⟨-, hsame, hcommit⟩ | ⟨hcut, hsame, -⟩ := hr.commit_cases ht
    · obtain ⟨left, rfl⟩ : ∃ n, left = n + 1 := ⟨left - 1, by omega⟩
      refine ⟨_, hloop.trans (apply_loop_stops ?_ left), hcalls⟩
      rw [hlog, log_is_offset_larger, hcommit, hsame, decide_eq_false_iff_not]
      exact Nat.lt_irrefl _
    · obtain ⟨left, rfl⟩ : ∃ n, left = n + 2 := ⟨left - 2, by omega⟩
      rw [hsame] at hlog
      refine ⟨_, hloop.trans (Rebuilt.stops_at_cut ht (m := m) ?_ hdone.running hcut hheader ?_ left), hcalls⟩
      · rw [hsame, hlog]
        exact ⟨hr.len, hr.head_eq, hr.end_eq, hr.commit_eq, hr.entries⟩
      · rw [hsame, hlog]
  · refine ⟨s, ?_, by simp⟩
    have hsmall : s.log.end_ < s.log.len := by
      rw [hend, hr.len, LOG_SIZE_eq]
      decide
    refine apply_loop_stops ?_ (2 * s.log.len)
    rw [log_is_offset_larger, decide_eq_false_iff_not, happly, end_distance_eq hsmall 0, hend, dist_self]
    omega

end applies

section recover_log

variable {data data' : dare_server_data_t} {logs : Nat → dare_log_t} {ok : Nat → Bool}
  {entries : Nat → Option Mem} {i : Nat}

/-- What a successful `rc_recover_log` leaves as log. -/
def recovered_log (log target : dare_log_t) (m : Mem) : dare_log_t :=
  let offsets := recover_offsets log ⟨target.commit, target.end_⟩
  let log := { log with end_ := offsets.end_, commit := offsets.commit }
  { log with mem := copy m log.mem (ENTRIES_OFFSET + log.head) (log_offset_end_distance log log.head) }

theorem rc_recover_log_cases (htarget : recover_target data ok = some i)
    (hlog : rc_recover_log data logs ok entries = (data', 0)) :
    ((logs i).end_ = data.log.len ∧ data'.log = data.log) ∨
    ((logs i).end_ ≠ data.log.len ∧
      ∃ m, entries i = some m ∧ data'.log = recovered_log data.log (logs i) m) := by
  have htarget' : recover_target { data with ssn := data.ssn + 1 } ok = some i := htarget
  simp only [rc_recover_log, htarget', dare_server_data_t.set_log_offsets, Function.update_self] at hlog
  split at hlog
  · rename_i hempty
    exact .inl ⟨hempty, (congrArg (·.1.log) hlog).symm⟩
  · rename_i hne
    right
    refine ⟨hne, ?_⟩
    cases hm : entries i with
    | none => simp [hm] at hlog
    | some m =>
      simp only [hm] at hlog
      exact ⟨m, rfl, (congrArg (·.1.log) hlog).symm⟩

theorem rebuilt_of_recovered {live : List dare_log_entry_t} {c : Nat} (log : dare_log_t)
    {target : dare_log_t} {m : Mem} (hlen : log.len = LOG_SIZE) (ht : Target log.head live c target m) :
    Rebuilt log.head live c target m (recovered_log log target m) := by
  have hoffsets := ht.recover_offsets_eq hlen rfl
  have hend := ht.path.end_lt
  rw [ht.len] at hend
  refine ⟨hlen, rfl, ?_, ?_, fun b hlow hhigh => ?_⟩
  · simp only [recovered_log, hoffsets]
  · simp only [recovered_log, hoffsets]
  · refine copy_inside (Nat.add_le_add_left hlow _) ?_
    have hcut := ht.end_cases
    have hstart := ht.path.start_le
    rw [ht.len] at hstart
    rw [hoffsets, end_distance_eq]
    · simp only [hlen]
      obtain ⟨hspan, hlt⟩ := ht.span_take 0
      split at hhigh
      · rename_i hwrap
        have hdist := dist_cases LOG_SIZE log.head 0
        simp only [hwrap, if_true]
        omega
      · rename_i hwrap
        have hdist := dist_cases LOG_SIZE log.head target.end_
        simp only [hwrap, if_false]
        omega
    · simp only [hlen]
      split <;> omega

end recover_log

end dare.server
