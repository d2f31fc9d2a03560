import ReliableSocket.Dare.Log.Capacity
import ReliableSocket.Dare.Log.Leads
import ReliableSocket.Dare.Server.Reconf

open memory ring dare.log

namespace dare.server

/-- The apply offsets that count when the log is pruned: the leader's own one and those of the servers
    in the configuration. -/
def pruning_offsets (data : dare_server_data_t) : List Nat :=
  data.log.apply ::
    ((List.range (get_extended_group_size data.cid)).filter data.is_on).map data.apply_offsets

/-- The offset lies between the head and the end of the log. -/
def Within (log : dare_log_t) (offset : Nat) : Prop :=
  offset ≤ log.len ∧ ring.dist log.len log.head offset ≤ ring.dist log.len log.head log.end_

/-- The log of a leader: one that is empty or full, so that nothing can be read from its head, or one
    that can be read. -/
inductive LeaderLog (log : dare_log_t) : Prop
  | blank (hblank : log_offset_end_distance log log.head = 0)
  | written {es : List dare_log_entry_t} {x : dare_log_entry_t} (hleads : Leads log log.head (es ++ [x]))
      (hread : log_offset_end_distance log log.head ≠ 0) (htail : TailKnown log es x)

/-- What pruning keeps, in the order from the old head on: the new head is neither before the old one
    nor behind an offset that counts. There is still an entry between the new head and the old end, and
    from there the way goes on to the new end. -/
structure PruningKeeps (log log' : dare_log_t) (offsets : List Nat) : Prop where
  not_before : ring.dist log.len log.head log'.head ≤ ring.dist log.len log.head log.end_
  not_behind : ∀ o ∈ offsets, ring.dist log.len log.head log'.head ≤ ring.dist log.len log.head o
  readable : is_log_empty log' = false
  remains : 0 < ring.dist log.len log'.head log.end_ ∧
    ring.dist log.len log'.head log.end_ + ring.dist log.len log.end_ log'.end_ =
      ring.dist log.len log'.head log'.end_

/-- The head can move: the last entry is not a HEAD entry, and all offsets that count are behind the
    head. If they are all at the end of the log, the last entry must not be the first one. -/
def MovesHead (data : dare_server_data_t) : Prop :=
  data.log.prev_log_entry_head = false ∧
    (∀ o ∈ pruning_offsets data, 0 < ring.dist data.log.len data.log.head o) ∧
    ((∀ o ∈ pruning_offsets data, o = data.log.end_) →
      0 < ring.dist data.log.len data.log.head (log_get_tail data.log))

/-- There is an entry at the head. If the head moves, the HEAD entry does not end at the end of the
    buffer, and it does not reach an offset that counts. -/
def PruningFits (data : dare_server_data_t) : Prop :=
  log_offset_end_distance data.log data.log.head ≠ 0 ∧
    (MovesHead data → ¬EndsAtLen data.log (.head 0) ∧
      ∀ o ∈ pruning_offsets data, o ≠ data.log.end_ →
        append_bytes data.log (.head 0) < ring.dist data.log.len data.log.end_ o)

section offsets

variable {data : dare_server_data_t} {log : dare_log_t} {offset : Nat}

/-- The two ways to measure where an offset of the log lies. -/
theorem Within.distance (hwithin : Within log offset) (hend : log.end_ < log.len)
    (hhead : log.head ≤ log.len) :
    log_offset_end_distance log offset + ring.dist log.len log.head offset =
      ring.dist log.len log.head log.end_ := by
  obtain ⟨hle, hdist⟩ := hwithin
  have hfar := dist_cases log.len log.head offset
  have hnear := dist_cases log.len offset log.end_
  have hall := dist_cases log.len log.head log.end_
  rw [end_distance_eq hend]
  omega

/-- One turn of the loop: the offset of the server is taken if it is smaller. -/
theorem prune_offset_spec (r : (Nat → Nat) × Nat) (i : Nat)
    (hkept : ∀ j, data.is_on j = true → r.1 j = data.apply_offsets j) :
    (∀ j, data.is_on j = true → (prune_offset data r i).1 j = data.apply_offsets j) ∧
      ((prune_offset data r i).2 = r.2 ∨ (prune_offset data r i).2 = data.log.apply ∨
        (data.is_on i = true ∧ (prune_offset data r i).2 = data.apply_offsets i)) ∧
      log_offset_end_distance data.log r.2 ≤ log_offset_end_distance data.log (prune_offset data r i).2 ∧
      (data.is_on i = true → log_offset_end_distance data.log (data.apply_offsets i) ≤
        log_offset_end_distance data.log (prune_offset data r i).2) := by
  cases hon : data.is_on i with
  | true =>
    have hvalue := hkept i hon
    simp only [prune_offset, hon, Bool.not_true, Bool.false_eq_true, if_false, hvalue,
      log_is_offset_larger, decide_eq_true_eq]
    refine ⟨hkept, ?_, ?_, fun _ => ?_⟩
    · split <;> simp
    · split <;> omega
    · split <;> omega
  | false =>
    simp only [prune_offset, hon, Bool.not_false, if_true, Function.update_self, log_is_offset_larger,
      decide_eq_true_eq]
    refine ⟨fun j hj => ?_, ?_, ?_, fun habsurd => ?_⟩
    · rw [Function.update_of_ne (by rintro rfl; rw [hon] at hj; cases hj)]
      exact hkept j hj
    · split <;> simp
    · split <;> omega
    · cases habsurd

/-- The loop finds one of the offsets, and none of those of servers in the configuration is smaller. -/
theorem prune_fold_spec (l : List Nat) (r : (Nat → Nat) × Nat)
    (hkept : ∀ j, data.is_on j = true → r.1 j = data.apply_offsets j) :
    ((l.foldl (prune_offset data) r).2 = r.2 ∨ (l.foldl (prune_offset data) r).2 = data.log.apply ∨
        ∃ i ∈ l, data.is_on i = true ∧ (l.foldl (prune_offset data) r).2 = data.apply_offsets i) ∧
      log_offset_end_distance data.log r.2 ≤
        log_offset_end_distance data.log (l.foldl (prune_offset data) r).2 ∧
      ∀ i ∈ l, data.is_on i = true → log_offset_end_distance data.log (data.apply_offsets i) ≤
        log_offset_end_distance data.log (l.foldl (prune_offset data) r).2 := by
  induction l generalizing r with
  | nil => exact ⟨.inl rfl, Nat.le_refl _, fun i hi => absurd hi List.not_mem_nil⟩
  | cons i l ih =>
    obtain ⟨hkept', hvalue, hle, hserver⟩ := prune_offset_spec r i hkept
    obtain ⟨hresult, hle', hrest⟩ := ih (prune_offset data r i) hkept'
    rw [List.foldl_cons]
    refine ⟨?_, Nat.le_trans hle hle', fun j hj hon => ?_⟩
    · obtain hsame | happly | ⟨j, hj, hon, hj'⟩ := hresult
      · rw [hsame]
        obtain hvalue | hvalue | ⟨hon, hvalue⟩ := hvalue
        · exact .inl hvalue
        · exact .inr (.inl hvalue)
        · exact .inr (.inr ⟨i, List.mem_cons_self, hon, hvalue⟩)
      · exact .inr (.inl happly)
      · exact .inr (.inr ⟨j, List.mem_cons_of_mem i hj, hon, hj'⟩)
    · obtain rfl | hj := List.mem_cons.mp hj
      · exact Nat.le_trans (hserver hon) hle'
      · exact hrest j hj hon

/-- The smallest of the offsets that count. -/
def min_apply_offset (data : dare_server_data_t) : Nat :=
  ((List.range (get_extended_group_size data.cid)).foldl (prune_offset data)
    (data.apply_offsets, data.log.apply)).2

theorem min_apply_offset_spec (data : dare_server_data_t) :
    min_apply_offset data ∈ pruning_offsets data ∧ ∀ o ∈ pruning_offsets data,
      log_offset_end_distance data.log o ≤ log_offset_end_distance data.log (min_apply_offset data) := by
  obtain ⟨hvalue, happly, hservers⟩ := prune_fold_spec
    (List.range (get_extended_group_size data.cid)) (data.apply_offsets, data.log.apply) fun _ _ => rfl
  unfold min_apply_offset pruning_offsets
  refine ⟨?_, fun o ho => ?_⟩
  · obtain hvalue | hvalue | ⟨i, hi, hon, hvalue⟩ := hvalue
    · rw [hvalue]
      exact List.mem_cons_self
    · rw [hvalue]
      exact List.mem_cons_self
    · rw [hvalue]
      exact List.mem_cons_of_mem _ (List.mem_map_of_mem (List.mem_filter.mpr ⟨hi, hon⟩))
  · obtain rfl | ho := List.mem_cons.mp ho
    · exact happly
    · obtain ⟨i, hi, rfl⟩ := List.mem_map.mp ho
      obtain ⟨hi, hon⟩ := List.mem_filter.mp hi
      exact hservers i hi hon

end offsets

section head

variable {data : dare_server_data_t} {log : dare_log_t} {offsets : List Nat} {offset : Nat}

/-- The offset to which `log_pruning` moves the head. -/
def pruned_head (data : dare_server_data_t) : Nat :=
  if log_offset_end_distance data.log (min_apply_offset data) = 0 then log_get_tail data.log
  else min_apply_offset data

/-- The log after the head has moved to `offset` and the HEAD entry is appended. -/
def with_head (log : dare_log_t) (term : UInt64) (offset : Nat) : dare_log_t :=
  { (log_append_entry { log with head := offset } term 0 0 (.head (UInt64.ofNat offset))).1 with
    prev_log_entry_head := true }

theorem advance_head_log (data : dare_server_data_t) (min_offset : Nat) :
    let head := if log_offset_end_distance data.log min_offset = 0 then log_get_tail data.log else min_offset
    (advance_head data min_offset).log =
      if log_is_offset_larger data.log head data.log.head && !data.log.prev_log_entry_head then
        with_head data.log (SID_GET_TERM data.sid) head
      else data.log := by
  simp only [advance_head]
  generalize (if log_offset_end_distance data.log min_offset = 0 then log_get_tail data.log
    else min_offset) = head
  by_cases hmoves : (log_is_offset_larger data.log head data.log.head &&
      !data.log.prev_log_entry_head) = true
  · rw [if_pos hmoves, if_pos hmoves]
    rfl
  · rw [if_neg hmoves, if_neg hmoves]

theorem log_pruning_log {g : group_t} (hleader : IS_LEADER g.data = true) :
    (log_pruning g).data.log =
      if log_is_offset_larger g.data.log (pruned_head g.data) g.data.log.head &&
          !g.data.log.prev_log_entry_head then
        with_head g.data.log (SID_GET_TERM g.data.sid) (pruned_head g.data)
      else g.data.log := by
  unfold log_pruning
  rw [hleader]
  exact advance_head_log { g.data with apply_offsets := _ } (min_apply_offset g.data)

/-- A log whose head stays keeps what it has. -/
theorem keeps_same (hend : log.end_ < log.len)
    (hwithin : ring.dist log.len log.head log.end_ ≠ 0) : PruningKeeps log log offsets := by
  refine ⟨by simp, fun o _ => by simp, ?_, Nat.pos_of_ne_zero hwithin, by simp⟩
  simp only [is_log_empty, decide_eq_false_iff_not]
  omega

theorem not_keeps_blank (hblank : log_offset_end_distance log log.head = 0) :
    ¬PruningKeeps log log offsets := by
  rintro ⟨-, -, hreadable, hpos, -⟩
  have hne : log.end_ ≠ log.len := by simpa [is_log_empty] using hreadable
  rw [log_offset_end_distance, if_neg hne] at hblank
  exact absurd hblank (Nat.pos_iff_ne_zero.mp hpos)

/-- What the HEAD entry leaves of the log, once the head has moved. -/
theorem keeps_with_head_iff (hlen : log.len = LOG_SIZE) (hend : log.end_ < log.len)
    (hwithin : Within log offset) (hpos : log_offset_end_distance log offset ≠ 0)
    (hleast : ∀ o ∈ offsets, ring.dist log.len log.head offset ≤ ring.dist log.len log.head o)
    (term : UInt64) :
    PruningKeeps log (with_head log term offset) offsets ↔
      ¬EndsAtLen log (.head 0) ∧ append_bytes log (.head 0) < ring.dist log.len log.end_ offset := by
  set log₁ : dare_log_t := { log with head := offset } with hlog₁
  have hok : LogOk log₁ := ⟨hlen, Nat.le_of_lt hend⟩
  have hbig : 2 ^ 18 ≤ log.len := by rw [hlen, LOG_SIZE_eq]; omega
  rw [end_distance_eq hend] at hpos
  obtain ⟨hfull, -⟩ | ⟨-, -, hfits, hwraps, -⟩ | ⟨-, -, log', heq, happ⟩ :=
    log_append_entry_cases log₁ term 0 0 (.head (UInt64.ofNat offset)) hbig hok.2
  · have hat : log.end_ = offset := hfull
    rw [hat, dist_self] at hpos
    exact absurd rfl hpos
  · exact absurd hfits (Nat.not_le_of_lt hwraps)
  have hnew : with_head log term offset = { log' with prev_log_entry_head := true } := by
    unfold with_head
    rw [heq]
  set x := new_entry log₁ term 0 0 (.head (UInt64.ofNat offset))
  have hcases := entry_format.write_cases log.len log.end_ x
  have hsize : entry_format.size x = 48 := rfl
  have hend' : log'.end_ = entry_format.next log.len log.end_ x := happ.end_
  have hbytes : append_bytes log (.head 0) = entry_format.cost log.len log.end_ x := rfl
  have hdist : ring.dist log.len log.end_ log'.end_ = entry_format.cost log.len log.end_ x :=
    happ.end_dist hok
  have hends : EndsAtLen log (.head 0) ↔ log.end_ + 48 = log.len := Iff.rfl
  have hhead' : log'.head = offset := happ.head
  have hlen' : log'.len = log.len := happ.len
  have hle : log'.end_ ≤ log.len := by omega
  have hflush : log'.end_ = log.len ↔ log.end_ + 48 = log.len := by omega
  have hempty : is_log_empty (with_head log term offset) = false ↔ log'.end_ ≠ log.len := by
    rw [hnew]
    simp [is_log_empty, hlen']
  have hround : ∀ hlt : log'.end_ < log.len, _ := fun hlt => dist_add_iff hwithin.1 hend hlt hpos
  rw [hdist] at hround
  rw [hends, hbytes, ← hflush]
  constructor
  · rintro ⟨-, -, hreadable, -, hway⟩
    rw [hnew] at hway
    change ring.dist log.len log'.head log.end_ + ring.dist log.len log.end_ log'.end_ =
      ring.dist log.len log'.head log'.end_ at hway
    rw [hhead', hdist] at hway
    have hne := hempty.mp hreadable
    exact ⟨hne, (hround (Nat.lt_of_le_of_ne hle hne)).mp hway⟩
  · rintro ⟨hne, hroom⟩
    have hway := (hround (Nat.lt_of_le_of_ne hle hne)).mpr hroom
    refine ⟨?_, fun o ho => ?_, hempty.mpr hne, ?_⟩
    · rw [hnew]
      change ring.dist log.len log.head log'.head ≤ _
      rw [hhead']
      exact hwithin.2
    · rw [hnew]
      change ring.dist log.len log.head log'.head ≤ _
      rw [hhead']
      exact hleast o ho
    · rw [hnew]
      change 0 < ring.dist log.len log'.head log.end_ ∧
        ring.dist log.len log'.head log.end_ + ring.dist log.len log.end_ log'.end_ =
          ring.dist log.len log'.head log'.end_
      rw [hhead', hdist]
      exact ⟨Nat.pos_of_ne_zero hpos, hway⟩

end head

section tail

variable {log : dare_log_t} {es : List dare_log_entry_t} {x : dare_log_entry_t}

/-- The entries of a log that can be read take the way from its head to its end. -/
theorem head_distance (hleads : Leads log log.head (es ++ [x]))
    (hread : log_offset_end_distance log log.head ≠ 0) :
    log.end_ < log.len ∧ 0 < log.end_ ∧
      log_offset_end_distance log log.head = ring.dist log.len log.head log.end_ := by
  have hend := end_ne_len_of_distance hread
  have hle := hleads.end_le
  have hlt : log.end_ < log.len := by omega
  have hreaches := hleads.reaches
  have hcases := entry_format.write_cases log.len (entry_format.advance log.len log.head es) x
  have hsize := entry_format.size_pos x
  rw [RecordFormat.advance_append] at hreaches
  change entry_format.next log.len (entry_format.advance log.len log.head es) x = log.end_ at hreaches
  exact ⟨hlt, by omega, end_distance_eq hlt log.head⟩

/-- The tail lies between head and end, and the last entry is short against the rest of the buffer. -/
theorem tail_within (hleads : Leads log log.head (es ++ [x]))
    (hread : log_offset_end_distance log log.head ≠ 0) (htail : TailKnown log es x) :
    Within log (log_get_tail log) ∧ log_offset_end_distance log (log_get_tail log) ≠ 0 ∧
      append_bytes log (.head 0) < ring.dist log.len log.end_ (log_get_tail log) := by
  obtain ⟨hlt, -, hhead⟩ := head_distance hleads hread
  have hend := end_ne_len_of_distance hread
  obtain ⟨htlt, hlast, hspan⟩ := hleads.tail_last htail hend (.inr (.inr (.inr hread)))
  have hdist := hlast.last_distance hend
  have hcost := hlast.end_distance hend (hlast.span_lt hdist)
  have hall := hleads.end_distance hend (hleads.span_lt hread)
  rw [end_distance_eq hlt] at hcost
  have hway := dist_le_of_dist_le hleads.start_le htlt hlt (by omega)
  refine ⟨⟨Nat.le_of_lt htlt, by omega⟩, hdist, ?_⟩
  have hcases := entry_format.write_cases log.len (log_get_tail log) x
  have hmax := x.len_lt
  have hlen := hleads.len.trans LOG_SIZE_eq
  have hbytes : append_bytes log (.head 0) =
      if log.end_ + 48 ≤ log.len then 48 else log.len - log.end_ + 48 := rfl
  have hne : log_get_tail log ≠ log.end_ := by
    intro hsame
    rw [hsame, end_distance_eq hlt, dist_self] at hdist
    exact hdist rfl
  have hround := dist_add_dist (Nat.le_of_lt htlt) hlt hne
  rw [RecordFormat.span_singleton] at hcost
  rw [entry_size] at hcases
  unfold SIZEOF_ENTRY at hmax
  rw [hbytes]
  split <;> omega

end tail

section claim

variable {data : dare_server_data_t} {es : List dare_log_entry_t} {x : dare_log_entry_t}

/-- What counts about the offset to which the head moves. -/
structure PrunedHead (data : dare_server_data_t) (head : Nat) : Prop where
  within : Within data.log head
  before_end : log_offset_end_distance data.log head ≠ 0
  least : ∀ o ∈ pruning_offsets data,
    ring.dist data.log.len data.log.head head ≤ ring.dist data.log.len data.log.head o
  moves : (log_is_offset_larger data.log head data.log.head && !data.log.prev_log_entry_head) = true ↔
    MovesHead data
  room : append_bytes data.log (.head 0) < ring.dist data.log.len data.log.end_ head ↔
    ∀ o ∈ pruning_offsets data, o ≠ data.log.end_ →
      append_bytes data.log (.head 0) < ring.dist data.log.len data.log.end_ o

/-- The head moves to the last entry if all offsets are at the end. -/
theorem prunedHead_of_end (hleads : Leads data.log data.log.head (es ++ [x]))
    (hread : log_offset_end_distance data.log data.log.head ≠ 0) (htail : TailKnown data.log es x)
    (hend : ∀ o ∈ pruning_offsets data, o = data.log.end_) :
    PrunedHead data (log_get_tail data.log) := by
  obtain ⟨hwithin, hbefore, hroom⟩ := tail_within hleads hread htail
  obtain ⟨hlt, -, hhead⟩ := head_distance hleads hread
  have hsum := hwithin.distance hlt hleads.start_le
  refine ⟨hwithin, hbefore, fun o ho => ?_, ?_, fun _ o ho hne => absurd (hend o ho) hne, fun _ => hroom⟩
  · rw [hend o ho]
    exact hwithin.2
  · rw [Bool.and_eq_true, log_is_offset_larger, decide_eq_true_eq, hhead, Bool.not_eq_true']
    constructor
    · rintro ⟨hlarger, hprev⟩
      refine ⟨hprev, fun o ho => ?_, fun _ => by omega⟩
      rw [hend o ho]
      omega
    · rintro ⟨hprev, -, hmoves⟩
      have htail := hmoves hend
      exact ⟨by omega, hprev⟩

/-- Otherwise it moves to the smallest of the offsets. -/
theorem prunedHead_of_min (hleads : Leads data.log data.log.head (es ++ [x]))
    (hread : log_offset_end_distance data.log data.log.head ≠ 0)
    (hwithin : ∀ o ∈ pruning_offsets data, Within data.log o)
    (hbefore : log_offset_end_distance data.log (min_apply_offset data) ≠ 0) :
    PrunedHead data (min_apply_offset data) := by
  obtain ⟨hmem, hmin⟩ := min_apply_offset_spec data
  obtain ⟨hlt, hend, hhead⟩ := head_distance hleads hread
  generalize min_apply_offset data = m at *
  have hstart := hleads.start_le
  have hsum := (hwithin m hmem).distance hlt hstart
  have hleast : ∀ o ∈ pruning_offsets data,
      ring.dist data.log.len data.log.head m ≤ ring.dist data.log.len data.log.head o := by
    intro o ho
    have hsum' := (hwithin o ho).distance hlt hstart
    have hle := hmin o ho
    omega
  have hne : m ≠ data.log.end_ := by
    rintro rfl
    rw [end_distance_eq hlt] at hbefore
    simp at hbefore
  refine ⟨hwithin m hmem, hbefore, hleast, ?_, fun hroom o ho hdiffers => ?_, fun hall => hall m hmem hne⟩
  · rw [Bool.and_eq_true, log_is_offset_larger, decide_eq_true_eq, hhead, Bool.not_eq_true']
    constructor
    · rintro ⟨hlarger, hprev⟩
      refine ⟨hprev, fun o ho => ?_, fun hall => absurd (hall m hmem) hne⟩
      have hle := hleast o ho
      omega
    · rintro ⟨hprev, hall, -⟩
      have hm := hall m hmem
      exact ⟨by omega, hprev⟩
  · -- a larger offset that is not the end is farther from the end, going round
    have hle := hmin o ho
    have hround := dist_add_dist (hwithin o ho).1 hlt hdiffers
    have hround' := dist_add_dist (hwithin m hmem).1 hlt hne
    rw [end_distance_eq hlt, end_distance_eq hlt] at hle
    omega

theorem pruned_head_spec (hleads : Leads data.log data.log.head (es ++ [x]))
    (hread : log_offset_end_distance data.log data.log.head ≠ 0) (htail : TailKnown data.log es x)
    (hwithin : ∀ o ∈ pruning_offsets data, Within data.log o) :
    PrunedHead data (pruned_head data) := by
  unfold pruned_head
  split
  · rename_i hat
    refine prunedHead_of_end hleads hread htail fun o ho => ?_
    have hle := (min_apply_offset_spec data).2 o ho
    have hdist := dist_cases data.log.len o data.log.end_
    have hbound := (hwithin o ho).1
    obtain ⟨hlt, hend, -⟩ := head_distance hleads hread
    rw [hat, end_distance_eq hlt] at hle
    omega
  · rename_i hbefore
    exact prunedHead_of_min hleads hread hwithin hbefore

/-- Pruning of a log that can be read. -/
theorem pruning_keeps_written {g : group_t} (hleader : IS_LEADER g.data = true)
    (hleads : Leads g.data.log g.data.log.head (es ++ [x]))
    (hread : log_offset_end_distance g.data.log g.data.log.head ≠ 0) (htail : TailKnown g.data.log es x)
    (hwithin : ∀ o ∈ pruning_offsets g.data, Within g.data.log o) :
    PruningKeeps g.data.log (log_pruning g).data.log (pruning_offsets g.data) ↔ PruningFits g.data := by
  rw [log_pruning_log hleader]
  have hspec := pruned_head_spec hleads hread htail hwithin
  obtain ⟨hlt, -, hhead⟩ := head_distance hleads hread
  by_cases hmoves : MovesHead g.data
  · rw [if_pos (hspec.moves.mpr hmoves), keeps_with_head_iff hleads.len hlt hspec.within
      hspec.before_end hspec.least, hspec.room]
    exact ⟨fun hfits => ⟨hread, fun _ => hfits⟩, fun hfits => hfits.2 hmoves⟩
  · rw [if_neg (fun hlarger => hmoves (hspec.moves.mp hlarger))]
    exact ⟨fun _ => ⟨hread, fun habsurd => absurd habsurd hmoves⟩, fun _ => keeps_same hlt (by omega)⟩

/-- Pruning keeps what is still needed exactly if the log can be read and, where the head moves, the
    HEAD entry that is appended neither ends at the end of the buffer nor reaches an offset that
    counts. -/
theorem pruning_keeps_iff {g : group_t} (hleader : IS_LEADER g.data = true) (hlog : LeaderLog g.data.log)
    (hwithin : ∀ o ∈ pruning_offsets g.data, Within g.data.log o) :
    PruningKeeps g.data.log (log_pruning g).data.log (pruning_offsets g.data) ↔ PruningFits g.data := by
  cases hlog with
  | blank hblank =>
    have hstays : ∀ o, log_is_offset_larger g.data.log o g.data.log.head = false := fun o => by
      simp [log_is_offset_larger, hblank]
    rw [log_pruning_log hleader, hstays, Bool.false_and, if_neg Bool.false_ne_true]
    exact ⟨fun hkeeps => absurd hkeeps (not_keeps_blank hblank), fun hfits => absurd hblank hfits.1⟩
  | written hleads hread htail => exact pruning_keeps_written hleader hleads hread htail hwithin

end claim

/-- The leader of three servers which have all applied the first 48 bytes of the log. -/
def pruning_leader (log : dare_log_t) : group_t :=
  lead
    { (init_server_data 0 3).get admits_three with
      sid := mk_sid 1 true 0
      log := { log with apply := 48, tail := log.len, prev_log_entry_head := false }
      apply_offsets := fun _ => 48 }
    fun _ => 0

theorem pruning_leader_is_leader (log : dare_log_t) : IS_LEADER (pruning_leader log).data = true := by
  have hidx : (pruning_leader log).data.idx = 0 := rfl
  have hsid : (pruning_leader log).data.sid = mk_sid 1 true 0 := rfl
  have hterm : SID_GET_TERM (mk_sid 1 true 0) = 1 := rfl
  have hl : SID_GET_L (mk_sid 1 true 0) = true := rfl
  have hsidx : SID_GET_IDX (mk_sid 1 true 0) = 0 := rfl
  simp [IS_LEADER, IS_NONE, hidx, hsid, hterm, hl, hsidx]

theorem pruning_leader_offsets (log : dare_log_t) : ∀ o ∈ pruning_offsets (pruning_leader log).data, o = 48 := by
  intro o ho
  obtain rfl | ho := List.mem_cons.mp ho
  · rfl
  · obtain ⟨i, -, rfl⟩ := List.mem_map.mp ho
    rfl

/-- A log filled with `n + 2` commands without bytes, for such a leader. -/
theorem pruning_leader_log (n : Nat) (hn : 48 + 0 + (n + 1) * (48 + 0) < LOG_SIZE) :
    ∃ log es x, Leads (pruning_leader log).data.log (pruning_leader log).data.log.head (es ++ [x]) ∧
      log_offset_end_distance (pruning_leader log).data.log (pruning_leader log).data.log.head ≠ 0 ∧
      TailKnown (pruning_leader log).data.log es x ∧
      (∀ o ∈ pruning_offsets (pruning_leader log).data, Within (pruning_leader log).data.log o) ∧
      log.len = LOG_SIZE ∧ log.head = 0 ∧ log.end_ = 48 + 0 + (n + 1) * (48 + 0) := by
  obtain ⟨log, all, hrun, hcount, hhead, hcommit, hend, y, rest, rfl, hdata⟩ :=
    fill_of_commands 0 (by decide) 0 (by decide) (n + 1) hn
  have hlen := (indexed_of_short_run hrun).len
  have hlive : Path log 0 (y :: rest) := by
    rw [← hhead]
    exact path_of_short_run hrun (by simp)
  have hsize : y.len = 48 := by
    rw [dare_log_entry_t.len, hdata]
    rfl
  obtain ⟨es, x, rfl⟩ : ∃ es x, rest = es ++ [x] := by
    have hne : rest ≠ [] := by
      rintro rfl
      simp at hcount
    exact ⟨rest.dropLast, rest.getLast hne, (List.dropLast_append_getLast hne).symm⟩
  have hpath : Path (pruning_leader log).data.log log.head (y :: es ++ [x]) := by
    rw [hhead]
    exact hlive.congr_log rfl rfl rfl
  have hfirst : entry_format.AtRecord log.len log.head (y :: es ++ [x]) 1 48 := by
    left
    have hcases := entry_format.write_cases log.len log.head y
    rw [LOG_SIZE_eq] at hlen
    rw [entry_size, hsize, hhead] at hcases
    simp only [List.cons_append, List.take_succ_cons, List.take_zero, RecordFormat.advance]
    rw [hhead]
    omega
  have hway := dist_cases log.len log.head log.end_
  refine ⟨log, y :: es, x, hpath.leads hlen, ?_, .inr ⟨rfl, ⟨0, Nat.zero_le _, .inl ?_⟩, ⟨1, by simp, hfirst⟩⟩,
    fun o ho => ?_, hlen, hhead, hend⟩
  · rw [end_distance_eq hpath.end_lt]
    change ring.dist log.len log.head log.end_ ≠ 0
    omega
  · exact hcommit.trans hhead.symm
  · have hdist := dist_cases log.len log.head 48
    rw [pruning_leader_offsets log o ho]
    change 48 ≤ log.len ∧ ring.dist log.len log.head 48 ≤ ring.dist log.len log.head log.end_
    rw [LOG_SIZE_eq] at hlen
    omega

theorem leader_of_two_entries_prunes :
    ∃ log, IS_LEADER (pruning_leader log).data = true ∧
      (PruningKeeps (pruning_leader log).data.log (log_pruning (pruning_leader log)).data.log
        (pruning_offsets (pruning_leader log).data) ↔ PruningFits (pruning_leader log).data) := by
  obtain ⟨log, es, x, hleads, hread, htail, hwithin, -⟩ := pruning_leader_log 0 (by decide)
  have hleader := pruning_leader_is_leader log
  exact ⟨log, hleader, pruning_keeps_iff hleader (.written hleads hread htail) hwithin⟩

/-- A log is filled with commands without bytes up to 16 bytes before the end of the buffer, and all
    servers have applied the first one. The head moves behind this one, the HEAD entry is written in its
    place and ends at the head, so that the log reads as if it had no entry. -/
theorem head_entry_reaches_head :
    ∃ log, IS_LEADER (pruning_leader log).data = true ∧ LeaderLog (pruning_leader log).data.log ∧
      (∀ o ∈ pruning_offsets (pruning_leader log).data, Within (pruning_leader log).data.log o) ∧
      ¬PruningKeeps (pruning_leader log).data.log (log_pruning (pruning_leader log)).data.log
        (pruning_offsets (pruning_leader log).data) := by
  obtain ⟨log, es, x, hleads, hread, htail, hwithin, hlen, hhead, hend⟩ :=
    pruning_leader_log 1398099 (by decide)
  have hleader := pruning_leader_is_leader log
  refine ⟨log, hleader, .written hleads hread htail, hwithin, ?_⟩
  rw [pruning_keeps_written hleader hleads hread htail hwithin]
  rintro ⟨-, hfits⟩
  have hoffset := pruning_leader_offsets log
  have hmem : 48 ∈ pruning_offsets (pruning_leader log).data := List.mem_cons_self
  have hsize : log.len = 67108864 := hlen.trans LOG_SIZE_eq
  have hne : (48 : Nat) ≠ log.end_ := by omega
  have hmoves : MovesHead (pruning_leader log).data := by
    refine ⟨rfl, fun o ho => ?_, fun hall => absurd (hall 48 hmem) hne⟩
    rw [hoffset o ho]
    change 0 < ring.dist log.len log.head 48
    have hdist := dist_cases log.len log.head 48
    omega
  have hroom : (if log.end_ + 48 ≤ log.len then 48 else log.len - log.end_ + 48) <
      ring.dist log.len log.end_ 48 := (hfits hmoves).2 48 hmem hne
  have hdist := dist_cases log.len log.end_ 48
  rw [if_neg (by omega)] at hroom
  omega

end dare.server
