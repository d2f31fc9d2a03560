import ReliableSocket.Dare.Rc.Equal
import ReliableSocket.Dare.Rc.Majority

open memory ring
open dare.log dare.server

namespace dare.rc

section min_offset

variable {data : dare_server_data_t}

/-- The offset of a majority is the valid offset of some server. -/
theorem of_median_offset {min size median : Nat} (hmedian : median_offset data min size = some median) :
    ∃ i < size, median = valid_offset data i := by
  unfold median_offset at hmedian
  split at hmedian
  · cases hmedian
  · have hmem := (sort_offsets_perm _).mem_iff.mp (List.mem_of_getElem? hmedian)
    obtain ⟨i, hi, heq⟩ := List.mem_map.mp hmem
    exact ⟨i, List.mem_range.mp hi, heq.symm⟩

theorem getD_median_offset (min size : Nat) :
    (median_offset data min size).getD data.log.commit = data.log.commit ∨
      ∃ i < size, (median_offset data min size).getD data.log.commit = valid_offset data i := by
  cases hmedian : median_offset data min size with
  | none => exact .inl rfl
  | some median => exact .inr (of_median_offset hmedian)

/-- An offset that `update_remote_logs` may take as the new commit offset: the commit offset, the end
    of the own log, or the end of another server's log that has been adjusted. -/
def Candidate (data : dare_server_data_t) (o : Nat) : Prop :=
  o = data.log.commit ∨ o = data.log.end_ ∨
    ∃ i, i ≠ data.idx ∧ i < get_extended_group_size data.cid ∧
      (data.servers i).next_lr_step = .LR_UPDATE_LOG ∧ o = (data.log_offsets i).end_

theorem candidate_valid_offset {i : Nat} (hi : i < get_extended_group_size data.cid) :
    Candidate data (valid_offset data i) := by
  unfold valid_offset
  split
  · exact .inr (.inl rfl)
  split
  · exact .inl rfl
  · rename_i hother hvalid
    simp only [not_or, not_not] at hvalid
    exact .inr (.inr ⟨i, hother, hi, hvalid.2.2, rfl⟩)

theorem size_le_extended (cid : dare_cid_t) : cid.size_0.toNat ≤ get_extended_group_size cid ∧
    (cid.state = CID_TRANSIT → cid.size_1.toNat ≤ get_extended_group_size cid) := by
  unfold get_extended_group_size
  split
  · rename_i hstable
    refine ⟨Nat.le_refl _, fun htransit => ?_⟩
    rw [hstable] at htransit
    cases htransit
  split
  · rename_i hlt
    exact ⟨Nat.le_of_lt (UInt8.lt_iff_toNat_lt.mp hlt), fun _ => Nat.le_refl _⟩
  · rename_i hge
    exact ⟨Nat.le_refl _, fun _ => Nat.le_of_not_lt fun hlt => hge (UInt8.lt_iff_toNat_lt.mpr hlt)⟩

/-- All that the search for committed entries can find. -/
theorem candidate_min_offset : Candidate data (min_offset data) := by
  obtain ⟨hsize, hsize'⟩ := size_le_extended data.cid
  have hfirst : Candidate data
      ((median_offset data data.log.commit data.cid.size_0.toNat).getD data.log.commit) := by
    obtain heq | ⟨i, hi, heq⟩ := @getD_median_offset data data.log.commit data.cid.size_0.toNat
    · exact .inl heq
    · rw [heq]
      exact candidate_valid_offset (Nat.lt_of_lt_of_le hi hsize)
  unfold min_offset
  dsimp only
  split
  · exact hfirst
  · rename_i htransit
    split
    · exact hfirst
    · rename_i median hmedian
      split
      · obtain ⟨i, hi, rfl⟩ := of_median_offset hmedian
        exact candidate_valid_offset (Nat.lt_of_lt_of_le hi (hsize' (not_not.mp htransit)))
      · exact hfirst

end min_offset

/-- The boundary before entry number `k` of the entries of a log. -/
def At (log : dare_log_t) (live : List dare_log_entry_t) (k o : Nat) : Prop :=
  k ≤ live.length ∧ entry_format.AtRecord log.len log.head live k o

section at_entry

variable {log : dare_log_t} {live : List dare_log_entry_t} {k k' o o' : Nat}

theorem At.mono {log' : dare_log_t} (hlen : log'.len = log.len) (hhead : log'.head = log.head)
    (rest : List dare_log_entry_t) (hat : At log live k o) : At log' (live ++ rest) k o := by
  unfold At
  rw [hlen, hhead]
  refine ⟨?_, hat.2.append hat.1 rest⟩
  rw [List.length_append]
  exact Nat.le_trans hat.1 (Nat.le_add_right _ _)

/-- An offset that is not larger has not more entries before it. -/
theorem At.larger (hpath : Path log log.head live) (hat : At log live k o) (hat' : At log live k' o')
    (hlt : k < k') : log_is_offset_larger log o' o = true := by
  have hspan := RecordFormat.span_lt_of_at hpath.holds hlt hat'.1 hat.2 hat'.2
  have hdist := (hpath.at_record hat.1 hat.2).end_distance
  have hdist' := (hpath.at_record hat'.1 hat'.2).end_distance
  simp only [log_is_offset_larger, decide_eq_true_eq]
  omega

theorem At.not_larger (hpath : Path log log.head live) (hat : At log live k o) (hat' : At log live k' o')
    (hlt : k < k') : log_is_offset_larger log o o' = false := by
  have hlarger := hat.larger hpath hat' hlt
  simp only [log_is_offset_larger, decide_eq_true_eq, decide_eq_false_iff_not] at hlarger ⊢
  omega

theorem At.le_of_larger (hpath : Path log log.head live) (hat : At log live k o)
    (hat' : At log live k' o') (hlarger : log_is_offset_larger log o' o = true) : k ≤ k' := by
  by_contra hlt
  have hnot := hat'.not_larger hpath hat (by omega)
  rw [hnot] at hlarger
  cases hlarger

theorem At.unique (hpath : Path log log.head live) (hat : At log live k o) (hat' : At log live k' o) :
    k = k' := by
  have hself : log_is_offset_larger log o o = false := by simp [log_is_offset_larger]
  obtain hlt | heq | hlt := Nat.lt_trichotomy k k'
  · rw [hat.larger hpath hat' hlt] at hself
    cases hself
  · exact heq
  · rw [hat'.larger hpath hat hlt] at hself
    cases hself

/-- The number of bytes from the head of the log to an offset; the two ends of the buffer are the same
    place. -/
def log_position (log : dare_log_t) (offset : Nat) : Nat := (offset + log.len - log.head) % log.len

/-- Circular order. -/
def AtOrBefore (log : dare_log_t) (offset offset' : Nat) : Prop :=
  log_position log offset ≤ log_position log offset'

/-- What lies before a boundary and what lies behind it make up the log. -/
theorem At.position (hpath : Path log log.head live) (hat : At log live k o) :
    log_position log o + log_offset_end_distance log o = entry_format.span log.len log.head live := by
  have hend := hpath.end_lt
  have hhead := hpath.start_le
  have hwhole := hpath.end_distance
  have hrest := (hpath.at_record hat.1 hat.2).end_distance
  have hshorter := (RecordFormat.holds_at hpath.holds hat.1 hat.2).2.2
  rw [← hwhole, ← hrest] at hshorter
  rw [← hwhole]
  simp only [dare.log.end_distance_eq hend] at hshorter ⊢
  unfold log_position
  obtain rfl | hlt := RecordFormat.at_start_or_lt hpath.holds hat.1 hat.2
  · rw [Nat.add_sub_cancel_left, Nat.mod_self, Nat.zero_add]
  · rw [← dist_le_of_dist_le hhead hlt hend hshorter, Nat.add_comm]
    congr 1
    obtain ⟨hle, hdist⟩ | ⟨hgt, hdist⟩ := dist_cases log.len log.head o
    · rw [hdist, show o + log.len - log.head = o - log.head + log.len by omega, Nat.add_mod_right,
        Nat.mod_eq_of_lt (by omega)]
    · rw [hdist, Nat.mod_eq_of_lt (by omega)]
      omega

/-- The comparison of the source is circular order. -/
theorem At.before_iff (hpath : Path log log.head live) (hat : At log live k o) (hat' : At log live k' o') :
    AtOrBefore log o o' ↔ log_is_offset_larger log o o' = false := by
  have hposition := hat.position hpath
  have hposition' := hat'.position hpath
  rw [AtOrBefore, log_is_offset_larger, decide_eq_false_iff_not]
  omega

theorem At.before_of_larger (hpath : Path log log.head live) (hat : At log live k o) (hat' : At log live k' o')
    (hlarger : log_is_offset_larger log o' o = true) : AtOrBefore log o o' := by
  rw [hat.before_iff hpath hat']
  simp only [log_is_offset_larger, decide_eq_true_eq, decide_eq_false_iff_not] at hlarger ⊢
  omega

theorem At.of_mem_positions (hpath : Path log log.head live) (hmem : (o, k) ∈ log_positions log) :
    At log live k o := by
  obtain ⟨j, hk, hj, hat⟩ := hpath.of_mem_positions hmem
  rw [Nat.zero_add] at hk
  rw [hk]
  exact ⟨hj, hat⟩

theorem At.mem_positions (hpath : Path log log.head live) (hat : At log live k o) :
    (o, k) ∈ log_positions log := by
  have hlength := hpath.length_le
  unfold SIZEOF_ENTRY at hlength
  have hk := hat.1
  have hmem := hpath.mem_positions 0 (log.len + 1) hat.1 hat.2 (by omega)
  rwa [Nat.zero_add] at hmem

end at_entry

/-- The offset has at most `commit` entries before it, or at least `blank` ones. -/
def Counts (log : dare_log_t) (live : List dare_log_entry_t) (commit blank o : Nat) : Prop :=
  ∃ k, At log live k o ∧ (k ≤ commit ∨ blank ≤ k)

/-- The offset is not before `e` and has at least `blank` entries before it. -/
def Behind (log : dare_log_t) (live : List dare_log_entry_t) (blank e o : Nat) : Prop :=
  AtOrBefore log e o ∧ ∃ k, At log live k o ∧ blank ≤ k

/-- What is known about a server with `count` entries before its first commit offset, when the leader
    has committed `commit` entries and the blank entry is number `blank`. -/
structure PeerCount (count commit blank : Nat) (log : dare_log_t) (live : List dare_log_entry_t)
    (server : server_t) (offsets : log_offsets_t) (busy : Prop) : Prop where
  get_nce_len : server.next_lr_step = .LR_GET_NCE_LEN → busy → count ≤ commit
  get_nce : server.next_lr_step = .LR_GET_NCE → count ≤ commit
  set_end : server.next_lr_step = .LR_SET_END →
    count ≤ commit ∧ (busy → Counts log live commit blank offsets.end_)
  update_log : server.next_lr_step = .LR_UPDATE_LOG →
    Counts log live commit blank offsets.end_ ∧
      (busy → Behind log live blank offsets.end_ server.cached_end_offset)
  update_end : server.next_lr_step = .LR_UPDATE_END →
    Counts log live commit blank offsets.end_ ∧ Behind log live blank offsets.end_ server.cached_end_offset

/-- The log after some more steps: nothing has moved, and entries may have been added. -/
structure Continues (log : dare_log_t) (live : List dare_log_entry_t) (log' : dare_log_t)
    (live' : List dare_log_entry_t) : Prop where
  len : log'.len = log.len
  head : log'.head = log.head
  more : live <+: live'

section peer_count

variable {count commit commit' blank : Nat} {log log' : dare_log_t} {live live' : List dare_log_entry_t}
  {server server' : server_t} {offsets offsets' : log_offsets_t} {busy busy' : Prop}

theorem Continues.refl (log : dare_log_t) (live : List dare_log_entry_t) : Continues log live log live :=
  ⟨rfl, rfl, List.prefix_rfl⟩

theorem Continues.at {k o : Nat} (hlog : Continues log live log' live') (hat : At log live k o) :
    At log' live' k o := by
  obtain ⟨rest, rfl⟩ := hlog.more
  exact hat.mono hlog.len hlog.head rest

theorem Continues.before {e o : Nat} (hlog : Continues log live log' live') (hbefore : AtOrBefore log e o) :
    AtOrBefore log' e o := by
  unfold AtOrBefore log_position at hbefore ⊢
  rwa [hlog.len, hlog.head]

theorem Counts.mono {o : Nat} (hcommit : commit ≤ commit') (hlog : Continues log live log' live')
    (hcounts : Counts log live commit blank o) : Counts log' live' commit' blank o := by
  obtain ⟨k, hk, hle | hle⟩ := hcounts
  · exact ⟨k, hlog.at hk, .inl (Nat.le_trans hle hcommit)⟩
  · exact ⟨k, hlog.at hk, .inr hle⟩

theorem Behind.mono {e o : Nat} (hlog : Continues log live log' live') (hbehind : Behind log live blank e o) :
    Behind log' live' blank e o := by
  obtain ⟨hbefore, k, hk, hle⟩ := hbehind
  exact ⟨hlog.before hbefore, k, hlog.at hk, hle⟩

theorem Behind.counts {e o : Nat} (hbehind : Behind log live blank e o) : Counts log live commit blank o := by
  obtain ⟨-, k, hk, hle⟩ := hbehind
  exact ⟨k, hk, .inr hle⟩

/-- From then on it is the end offset. -/
theorem Behind.self {e o : Nat} (hbehind : Behind log live blank e o) : Behind log live blank o o :=
  ⟨Nat.le_refl _, hbehind.2⟩

theorem PeerCount.mono (hcount : PeerCount count commit blank log live server offsets busy)
    (hcommit : commit ≤ commit') (hlog : Continues log live log' live')
    (hstep : server'.next_lr_step = server.next_lr_step)
    (hcached : server'.cached_end_offset = server.cached_end_offset)
    (hend : offsets'.end_ = offsets.end_) (hbusy : busy' → busy) :
    PeerCount count commit' blank log' live' server' offsets' busy' where
  get_nce_len h hb := Nat.le_trans (hcount.get_nce_len (hstep ▸ h) (hbusy hb)) hcommit
  get_nce h := Nat.le_trans (hcount.get_nce (hstep ▸ h)) hcommit
  set_end h := by
    obtain ⟨hle, hcounts⟩ := hcount.set_end (hstep ▸ h)
    rw [hend]
    exact ⟨Nat.le_trans hle hcommit, fun hb => (hcounts (hbusy hb)).mono hcommit hlog⟩
  update_log h := by
    obtain ⟨hcounts, hbehind⟩ := hcount.update_log (hstep ▸ h)
    rw [hend, hcached]
    exact ⟨hcounts.mono hcommit hlog, fun hb => (hbehind (hbusy hb)).mono hlog⟩
  update_end h := by
    obtain ⟨hcounts, hbehind⟩ := hcount.update_end (hstep ▸ h)
    rw [hend, hcached]
    exact ⟨hcounts.mono hcommit hlog, hbehind.mono hlog⟩

theorem PeerCount.of_get_nce_len (hat : server.next_lr_step = .LR_GET_NCE_LEN)
    (hle : busy → count ≤ commit) : PeerCount count commit blank log live server offsets busy := by
  constructor <;> intro h <;> rw [hat] at h
  case get_nce_len => exact hle
  all_goals cases h

theorem PeerCount.of_get_nce (hat : server.next_lr_step = .LR_GET_NCE) (hle : count ≤ commit) :
    PeerCount count commit blank log live server offsets busy := by
  constructor <;> intro h <;> rw [hat] at h
  case get_nce => exact hle
  all_goals cases h

theorem PeerCount.of_set_end (hat : server.next_lr_step = .LR_SET_END) (hle : count ≤ commit)
    (hend : busy → Counts log live commit blank offsets.end_) :
    PeerCount count commit blank log live server offsets busy := by
  constructor <;> intro h <;> rw [hat] at h
  case set_end => exact ⟨hle, hend⟩
  all_goals cases h

theorem PeerCount.of_update_log (hat : server.next_lr_step = .LR_UPDATE_LOG)
    (hend : Counts log live commit blank offsets.end_)
    (hcached : busy → Behind log live blank offsets.end_ server.cached_end_offset) :
    PeerCount count commit blank log live server offsets busy := by
  constructor <;> intro h <;> rw [hat] at h
  case update_log => exact ⟨hend, hcached⟩
  all_goals cases h

theorem PeerCount.of_update_end (hat : server.next_lr_step = .LR_UPDATE_END)
    (hend : Counts log live commit blank offsets.end_)
    (hcached : Behind log live blank offsets.end_ server.cached_end_offset) :
    PeerCount count commit blank log live server offsets busy := by
  constructor <;> intro h <;> rw [hat] at h
  case update_end => exact ⟨hend, hcached⟩
  all_goals cases h

theorem PeerCount.success (hcount : PeerCount count commit blank log live server offsets True)
    (hlast : busy → server.next_lr_step = .LR_UPDATE_LOG) :
    PeerCount count commit blank log live (lr_success server) offsets busy := by
  have hcached := (lr_success_kept server).1
  cases hstep : server.next_lr_step with
  | LR_GET_WRITE =>
    refine .of_get_nce_len (by simp [lr_success, hstep]) fun hbusy => ?_
    have hbad := hlast hbusy
    rw [hstep] at hbad
    cases hbad
  | LR_GET_NCE_LEN =>
    exact .of_get_nce (by simp [lr_success, hstep]) (hcount.get_nce_len hstep trivial)
  | LR_GET_NCE =>
    refine .of_set_end (by simp [lr_success, hstep]) (hcount.get_nce hstep) fun hbusy => ?_
    have hbad := hlast hbusy
    rw [hstep] at hbad
    cases hbad
  | LR_SET_END =>
    refine .of_update_log (by simp [lr_success, hstep]) ((hcount.set_end hstep).2 trivial) fun hbusy => ?_
    have hbad := hlast hbusy
    rw [hstep] at hbad
    cases hbad
  | LR_UPDATE_LOG =>
    obtain ⟨hcounts, hbehind⟩ := hcount.update_log hstep
    have hafter : (lr_success server).next_lr_step = .LR_UPDATE_LOG ∨
        (lr_success server).next_lr_step = .LR_UPDATE_END := by
      simp only [lr_success, hstep]
      split <;> simp [hstep]
    obtain hafter | hafter := hafter
    · exact .of_update_log hafter hcounts fun _ => by rw [hcached]; exact hbehind trivial
    · exact .of_update_end hafter hcounts (by rw [hcached]; exact hbehind trivial)
  | LR_UPDATE_END =>
    obtain ⟨hcounts, hbehind⟩ := hcount.update_end hstep
    exact .of_update_log (by simp [lr_success, hstep]) hcounts fun _ => by rw [hcached]; exact hbehind

theorem lr_failure_step (server : server_t) : (lr_failure server).next_lr_step = server.next_lr_step := by
  unfold lr_failure
  split
  · split <;> rfl
  · rfl

theorem PeerCount.failure (hcount : PeerCount count commit blank log live server offsets True) :
    PeerCount count commit blank log live (lr_failure server) offsets busy :=
  hcount.mono (Nat.le_refl _) (.refl _ _) (lr_failure_step server) (lr_failure_kept server).1 rfl
    fun _ => trivial

end peer_count

end dare.rc
