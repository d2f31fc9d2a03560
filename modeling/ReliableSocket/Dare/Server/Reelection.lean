import ReliableSocket.Dare.Server.Reconf

open memory dare.log

namespace dare.server

section scan

/-- The loop of `poll_vote_count` over the entries behind the offset of the configuration: the offset at
    which it ends, and the entry that its pointer is left at. No fuel means that it has not ended. -/
def scan_config (log : dare_log_t) (cid_idx : UInt64) : Nat → Nat → Option Nat → Option (Nat × Option Nat)
  | 0, _, _ => none
  | fuel + 1, offset, last =>
    if log_offset_end_distance log offset ≠ 0 then
      match log_get_entry log offset with
      | none => none
      | some entry =>
        if !log_fit_entry log entry entry then scan_config log cid_idx fuel 0 (some entry)
        else if entry_type log.entries entry = CONFIG ∧ cid_idx < entry_idx log.entries entry then
          some (entry, some entry)
        else scan_config log cid_idx fuel (entry + log_entry_len log.entries entry) (some entry)
    else some (offset, last)

/-- The first entry of the term. The state is read from the entry that the scan ends with; there is
    nothing if its pointer was never set. -/
def blank_after_scan (s : apply_t) (cid_idx : UInt64) (fuel : Nat) : Option apply_t :=
  if s.data.cid.state = CID_STABLE then some (append_blank s false CID_STABLE)
  else
    match scan_config s.log cid_idx fuel s.data.cid_offset none with
    | none => none
    | some (offset, last) =>
      if log_offset_end_distance s.log offset ≠ 0 then some (append_blank s true CID_STABLE)
      else
        last.map fun entry =>
          append_blank s false (dare_cid_t.read s.log.entries (entry + DATA_OFFSET)).state

/-- The entries that a reader meets from an offset to the end of the log, headers that were left behind
    before a wrap included. -/
inductive Follow (log : dare_log_t) : Nat → List Nat → Prop
  | nil {offset : Nat} (hend : log_offset_end_distance log offset = 0) : Follow log offset []
  | wrap {offset entry : Nat} {entries : List Nat} (hget : log_get_entry log offset = some entry)
    (hfit : log_fit_entry log entry entry = false) (hrest : Follow log 0 entries) :
    Follow log offset (entry :: entries)
  | cons {offset entry : Nat} {entries : List Nat} (hget : log_get_entry log offset = some entry)
    (hfit : log_fit_entry log entry entry = true)
    (hrest : Follow log (entry + log_entry_len log.entries entry) entries) :
    Follow log offset (entry :: entries)

/-- No CONFIG entry among these is newer than the configuration. -/
def NoneNewer (log : dare_log_t) (cid_idx : UInt64) (entries : List Nat) : Prop :=
  ∀ entry ∈ entries, entry_type log.entries entry = CONFIG → ¬ cid_idx < entry_idx log.entries entry

instance (log : dare_log_t) (cid_idx : UInt64) (entries : List Nat) : Decidable (NoneNewer log cid_idx entries) :=
  inferInstanceAs (Decidable (∀ entry ∈ entries, _ → ¬ _))

variable {log : dare_log_t} {cid_idx : UInt64} {entries : List Nat} {fuel offset : Nat}

theorem distance_ne_zero_of_get {entry : Nat} (hget : log_get_entry log offset = some entry) :
    log_offset_end_distance log offset ≠ 0 := by
  intro hzero
  simp [log_get_entry, hzero] at hget

/-- The scan ends at the end of the log, with its pointer at the last entry. -/
theorem Follow.scan (hfollow : Follow log offset entries) (hnewer : NoneNewer log cid_idx entries)
    (hfuel : entries.length < fuel) (last : Option Nat) :
    ∃ stop, log_offset_end_distance log stop = 0 ∧
      scan_config log cid_idx fuel offset last = some (stop, entries.getLast?.or last) := by
  induction hfollow generalizing fuel last with
  | @nil offset hend =>
    obtain ⟨fuel, rfl⟩ := Nat.exists_eq_succ_of_ne_zero (Nat.ne_of_gt hfuel)
    exact ⟨offset, hend, by simp [scan_config, hend]⟩
  | @wrap offset entry entries hget hfit hrest ih =>
    obtain ⟨fuel, rfl⟩ := Nat.exists_eq_succ_of_ne_zero (Nat.ne_zero_of_lt hfuel)
    obtain ⟨stop, hstop, hscan⟩ := ih (fun e he => hnewer e (List.mem_cons_of_mem _ he))
      (Nat.lt_of_succ_lt_succ hfuel) (some entry)
    refine ⟨stop, hstop, ?_⟩
    rw [scan_config, if_pos (distance_ne_zero_of_get hget), hget]
    simp [hfit, hscan, List.getLast?_cons]
  | @cons offset entry entries hget hfit hrest ih =>
    obtain ⟨fuel, rfl⟩ := Nat.exists_eq_succ_of_ne_zero (Nat.ne_zero_of_lt hfuel)
    obtain ⟨stop, hstop, hscan⟩ := ih (fun e he => hnewer e (List.mem_cons_of_mem _ he))
      (Nat.lt_of_succ_lt_succ hfuel) (some entry)
    have hold : ¬ (entry_type log.entries entry = CONFIG ∧ cid_idx < entry_idx log.entries entry) :=
      fun h => hnewer entry List.mem_cons_self h.1 h.2
    refine ⟨stop, hstop, ?_⟩
    rw [scan_config, if_pos (distance_ne_zero_of_get hget), hget]
    simp only [hfit, Bool.not_true, Bool.false_eq_true, if_false, if_neg hold, hscan]
    simp [List.getLast?_cons]

end scan

section servers

variable {s : apply_t}

theorem cid_eq_iff_is_on {cid cid' : dare_cid_t} (hrest : cid' = { cid with bitmask := cid'.bitmask }) :
    cid = cid' ↔ ∀ i, CID_IS_SERVER_ON cid i = CID_IS_SERVER_ON cid' i := by
  constructor
  · exact fun h i => by rw [h]
  · intro hbits
    have hmask : cid.bitmask = cid'.bitmask := UInt32.toNat_inj.mp (Nat.eq_of_testBit_eq hbits)
    rw [hrest, ← hmask]

/-- Only the mask changes when servers are removed. -/
theorem rm_rest {cid base : dare_cid_t} (hrest : cid = { base with bitmask := cid.bitmask }) (i : Nat) :
    CID_SERVER_RM cid i = { base with bitmask := (CID_SERVER_RM cid i).bitmask } := by
  rw [hrest]
  rfl

/-- Server `i` is no longer in the configuration; the sizes and all other servers are as before. -/
structure Dropped (s s' : apply_t) (i : Nat) : Prop where
  idx : s'.data.idx = s.data.idx
  size_0 : s'.data.cid.size_0 = s.data.cid.size_0
  size_1 : s'.data.cid.size_1 = s.data.cid.size_1
  is_on : ∀ j, s'.data.is_on j = (s.data.is_on j && !decide (i = j))

theorem dropped_rm {s' : apply_t} {i : Nat} (hi : i < 32) (hidx : s'.data.idx = s.data.idx)
    (hcid : s'.data.cid = CID_SERVER_RM s.data.cid i) : Dropped s s' i := by
  refine ⟨hidx, by rw [hcid]; rfl, by rw [hcid]; rfl, fun j => ?_⟩
  rw [dare_server_data_t.is_on, hcid]
  exact is_on_rm hi j

theorem dropped_off {i : Nat} (hoff : s.data.is_on i = false) : Dropped s s i := by
  refine ⟨rfl, rfl, rfl, fun j => ?_⟩
  by_cases hij : i = j
  · rw [← hij, hoff, Bool.false_and]
  · rw [decide_eq_false hij, Bool.not_false, Bool.and_true]

theorem remove_servers_turn (hidx : s.data.idx < 32) {i : Nat} (hi : i < s.data.cid.size_0.toNat) :
    ∃ s', Dropped s s' i ∧ ∀ fuel, remove_servers (fuel + 1) i s = remove_servers fuel (i + 1) s' := by
  by_cases hown : i = s.data.idx
  · refine ⟨{ s.set_cid (CID_SERVER_RM s.data.cid i) with die_af_commit := true },
      dropped_rm (hown ▸ hidx) rfl rfl, fun fuel => ?_⟩
    rw [remove_servers, if_pos hi, if_pos hown]
  · cases hon : CID_IS_SERVER_ON s.data.cid i with
    | false => exact ⟨s, dropped_off hon, fun fuel => by simp [remove_servers, hi, hown, hon]⟩
    | true =>
      exact ⟨(s.set_cid (CID_SERVER_RM s.data.cid i)).call (.dare_ib_disconnect_server i),
        dropped_rm (lt_of_is_on hon) rfl rfl, fun fuel => by simp [remove_servers, hi, hown, hon]⟩

theorem remove_additional_turn (hidx : s.data.idx < 32) {i : Nat} (hi : s.data.cid.size_1.toNat < i + 1) :
    ∃ s', Dropped s s' (i + 1) ∧ remove_additional (i + 1) s = remove_additional i s' := by
  by_cases hown : i + 1 = s.data.idx
  · refine ⟨{ s.set_cid (CID_SERVER_RM s.data.cid (i + 1)) with die_af_commit := true },
      dropped_rm (hown ▸ hidx) rfl rfl, ?_⟩
    rw [remove_additional, if_pos hi, if_pos hown]
  · cases hon : CID_IS_SERVER_ON s.data.cid (i + 1) with
    | false => exact ⟨s, dropped_off hon, by simp [remove_additional, hi, hown, hon]⟩
    | true =>
      exact ⟨(s.set_cid (CID_SERVER_RM s.data.cid (i + 1))).call (.dare_ib_disconnect_server (i + 1)),
        dropped_rm (lt_of_is_on hon) rfl rfl, by simp [remove_additional, hi, hown, hon]⟩

/-- A range that starts or ends with a server. -/
theorem drop_range {b : Bool} {i j : Nat} {p q : Prop} [Decidable p] [Decidable q] (hrange : q ↔ i = j ∨ p) :
    (b && !decide (i = j) && !decide p) = (b && !decide q) := by
  rw [Bool.and_assoc, ← Bool.not_or, ← Bool.decide_or, decide_eq_decide.mpr hrange]

/-- The servers left by the loop of `apply_committed_entries`. -/
theorem remove_servers_is_on (hidx : s.data.idx < 32) (fuel i : Nat)
    (hfuel : s.data.cid.size_0.toNat ≤ i + fuel) (j : Nat) :
    (remove_servers fuel i s).data.is_on j =
      (s.data.is_on j && !decide (i ≤ j ∧ j < s.data.cid.size_0.toNat)) := by
  induction fuel generalizing i s with
  | zero =>
    have hnone : ¬ (i ≤ j ∧ j < s.data.cid.size_0.toNat) := by omega
    rw [decide_eq_false hnone, Bool.not_false, Bool.and_true, remove_servers]
  | succ fuel ih =>
    by_cases hi : i < s.data.cid.size_0.toNat
    · obtain ⟨s', hdropped, hturn⟩ := remove_servers_turn hidx hi
      rw [hturn, ih (hdropped.idx ▸ hidx) (i + 1) (by rw [hdropped.size_0]; omega), hdropped.is_on,
        hdropped.size_0]
      exact drop_range (by omega)
    · have hnone : ¬ (i ≤ j ∧ j < s.data.cid.size_0.toNat) := by omega
      rw [decide_eq_false hnone, Bool.not_false, Bool.and_true, remove_servers, if_neg hi]

theorem remove_additional_is_on (hidx : s.data.idx < 32) (i j : Nat) :
    (remove_additional i s).data.is_on j =
      (s.data.is_on j && !decide (s.data.cid.size_1.toNat < j ∧ j ≤ i)) := by
  induction i generalizing s with
  | zero =>
    have hnone : ¬ (s.data.cid.size_1.toNat < j ∧ j ≤ 0) := by omega
    rw [decide_eq_false hnone, Bool.not_false, Bool.and_true, remove_additional]
  | succ i ih =>
    by_cases hi : s.data.cid.size_1.toNat < i + 1
    · obtain ⟨s', hdropped, hturn⟩ := remove_additional_turn hidx hi
      rw [hturn, ih (hdropped.idx ▸ hidx), hdropped.is_on, hdropped.size_1]
      exact drop_range (by omega)
    · have hnone : ¬ (s.data.cid.size_1.toNat < j ∧ j ≤ i + 1) := by omega
      rw [decide_eq_false hnone, Bool.not_false, Bool.and_true, remove_additional, if_neg hi]

/-- Both loops take the same servers out of the configuration. The one of `poll_vote_count` leaves out the
    server with the new size as its index, and from size zero it runs down from 255. -/
def SameServers (cid : dare_cid_t) : Prop :=
  if cid.size_0 = 0 then ∀ i, CID_IS_SERVER_ON cid i = true → i ≤ cid.size_1.toNat
  else cid.size_1 < cid.size_0 → CID_IS_SERVER_ON cid cid.size_1.toNat = false

theorem same_servers_iff (cid : dare_cid_t) :
    SameServers cid ↔ ∀ j, (CID_IS_SERVER_ON cid j &&
        !decide (cid.size_1.toNat < j ∧ j ≤ (cid.size_0 - 1).toNat)) =
      (CID_IS_SERVER_ON cid j && !decide (cid.size_1.toNat ≤ j ∧ j < cid.size_0.toNat)) := by
  have hon : ∀ (j : Nat) (p q : Prop) [Decidable p] [Decidable q],
      (CID_IS_SERVER_ON cid j && !decide p) = (CID_IS_SERVER_ON cid j && !decide q) ↔
        (CID_IS_SERVER_ON cid j = true → (p ↔ q)) := by
    intro j p q _ _
    cases CID_IS_SERVER_ON cid j <;> simp [decide_eq_decide]
  simp only [hon]
  by_cases hzero : cid.size_0 = 0
  · have hlast : (cid.size_0 - 1).toNat = 255 := by rw [hzero]; rfl
    have hnone : cid.size_0.toNat = 0 := by rw [hzero]; rfl
    rw [SameServers, if_pos hzero, hlast, hnone]
    refine forall_congr' fun j => forall_congr' fun hj => ?_
    have hlt := lt_of_is_on hj
    omega
  · have hpos : 1 ≤ cid.size_0.toNat := Nat.one_le_iff_ne_zero.mpr fun h => hzero (UInt8.toNat_inj.mp h)
    have hlast : (cid.size_0 - 1).toNat = cid.size_0.toNat - 1 :=
      UInt8.toNat_sub_of_le _ _ (UInt8.le_iff_toNat_le.mpr hpos)
    rw [SameServers, if_neg hzero, hlast, UInt8.lt_iff_toNat_lt]
    constructor
    · -- the two ranges differ in their first server only
      intro hoff j hj
      by_cases hfirst : j = cid.size_1.toNat
      · have hge : ¬ cid.size_1.toNat < cid.size_0.toNat := fun hlt => by
          rw [hfirst, hoff hlt] at hj
          cases hj
        omega
      · omega
    · intro hsame hlt
      rw [← Bool.not_eq_true]
      intro hfirst
      have hrange := hsame _ hfirst
      omega

theorem remove_servers_rest (fuel i : Nat) :
    (remove_servers fuel i s).data.cid =
      { s.data.cid with bitmask := (remove_servers fuel i s).data.cid.bitmask } :=
  remove_servers_keeps (Q := fun cid => cid = { s.data.cid with bitmask := cid.bitmask })
    (fun _ i hrest => rm_rest hrest i) fuel i rfl

theorem remove_additional_rest (i : Nat) :
    (remove_additional i s).data.cid =
      { s.data.cid with bitmask := (remove_additional i s).data.cid.bitmask } :=
  remove_additional_keeps (Q := fun cid => cid = { s.data.cid with bitmask := cid.bitmask })
    (fun _ i hrest => rm_rest hrest i) i rfl

end servers

section reelection

variable {s leader : apply_t} {cid_idx : UInt64} {entry fuel : Nat} {entries : List Nat}

/-- The two ends of a resize. -/
theorem settle_alike_iff (hidx : s.data.idx < 32) (hidx' : leader.data.idx < 32)
    (hcid : leader.data.cid = s.data.cid) {stable : dare_cid_t}
    (hstable : stable = (remove_servers 256 leader.data.cid.size_1.toNat
      (leader.set_cid { leader.data.cid with state := CID_STABLE })).data.cid) :
    (settle_config s).data.cid = { stable with size_0 := stable.size_1, size_1 := 0 } ↔
      SameServers s.data.cid := by
  obtain ⟨base, hbase⟩ : ∃ base, base = { s.data.cid with state := CID_STABLE } := ⟨_, rfl⟩
  obtain ⟨left, hleft⟩ : ∃ left, left =
    (remove_additional (s.data.cid.size_0 - 1).toNat (s.set_cid base)).data.cid := ⟨_, rfl⟩
  have hsettled : (settle_config s).data.cid = { left with size_0 := left.size_1, size_1 := 0 } := by
    rw [hleft, hbase]
    rfl
  rw [hcid, ← hbase] at hstable
  have hrest : left = { base with bitmask := left.bitmask } := hleft ▸ remove_additional_rest _
  have hrest' : stable = { base with bitmask := stable.bitmask } := hstable ▸ remove_servers_rest _ _
  have hsame : stable = { left with bitmask := stable.bitmask } := by
    rw [hrest]
    exact hrest'
  have hends : { left with size_0 := left.size_1, size_1 := 0 } =
      { stable with size_0 := stable.size_1, size_1 := 0 } ↔ left = stable := by
    constructor
    · intro h
      rw [hrest, hrest', congrArg dare_cid_t.bitmask h]
    · exact fun h => by rw [h]
  rw [hsettled, hends, cid_eq_iff_is_on hsame, same_servers_iff]
  refine forall_congr' fun j => ?_
  have hadditional := remove_additional_is_on (s := s.set_cid base) hidx (s.data.cid.size_0 - 1).toNat j
  have hservers := remove_servers_is_on (s := leader.set_cid base) hidx' 256 s.data.cid.size_1.toNat
    (by have := base.size_0.toNat_lt; show base.size_0.toNat ≤ _; omega) j
  rw [dare_server_data_t.is_on, ← hleft] at hadditional
  rw [dare_server_data_t.is_on, ← hstable] at hservers
  rw [hadditional, hservers, hbase]
  rfl

/-- The configuration is installed and appended. -/
def Finishes (s : apply_t) (cid : dare_cid_t) (result : Option apply_t) : Prop :=
  ∃ s', result = some s' ∧ s'.data.cid = cid ∧
    s'.log = (log_append_entry s.log (SID_GET_TERM s.data.sid) s.req_id s.clt_id (.config cid)).1

/-- There is an entry behind the offset of the configuration, the last one has the state EXTENDED, read as a
    configuration, exactly if the configuration has it, and the loops go over the same servers. -/
def EndsAlike (s : apply_t) (entries : List Nat) : Prop :=
  ∃ last, entries.getLast? = some last ∧
    ((dare_cid_t.read s.log.entries (last + DATA_OFFSET)).state = CID_EXTENDED ↔
      s.data.cid.state = CID_EXTENDED) ∧
    (s.data.cid.state = CID_TRANSIT → SameServers s.data.cid)

theorem blank_after_scan_eq (hfollow : Follow s.log s.data.cid_offset entries)
    (hnewer : NoneNewer s.log cid_idx entries) (hfuel : entries.length < fuel)
    (hunstable : s.data.cid.state ≠ CID_STABLE) :
    blank_after_scan s cid_idx fuel = entries.getLast?.map fun last =>
      append_blank s false (dare_cid_t.read s.log.entries (last + DATA_OFFSET)).state := by
  obtain ⟨stop, hstop, hscan⟩ := hfollow.scan hnewer hfuel none
  rw [blank_after_scan, if_neg hunstable, hscan, Option.or_none]
  simp only [hstop, ne_eq, not_true_eq_false, if_false]

theorem remove_additional_frame (i : Nat) (s : apply_t) :
    (remove_additional i s).log = s.log ∧ (remove_additional i s).req_id = s.req_id ∧
      (remove_additional i s).clt_id = s.clt_id := by
  induction i generalizing s with
  | zero => exact ⟨rfl, rfl, rfl⟩
  | succ i ih =>
    rw [remove_additional]
    split
    · split
      · exact ih _
      · split <;> exact ih _
    · exact ⟨rfl, rfl, rfl⟩

/-- What is appended is the configuration that is installed. -/
theorem finishes_blank_iff (hunstable : s.data.cid.state ≠ CID_STABLE) (state : UInt8) (cid : dare_cid_t) :
    Finishes s cid (some (append_blank s false state)) ↔
      (if state = CID_EXTENDED then { s.data.cid with state := CID_TRANSIT }
        else (settle_config s).data.cid) = cid := by
  have hblank : ∀ s' : apply_t, s'.log = s.log → s'.req_id = s.req_id → s'.clt_id = s.clt_id →
      (Finishes s cid (some (s'.set_log (log_append_entry s'.log (SID_GET_TERM s.data.sid) s'.req_id
        s'.clt_id (.config s'.data.cid)).1)) ↔ s'.data.cid = cid) := by
    intro s' hlog hreq hclt
    rw [hlog, hreq, hclt]
    constructor
    · rintro ⟨_, hsome, hcid, -⟩
      exact (congrArg (fun s => s.data.cid) (Option.some.inj hsome)).trans hcid
    · rintro rfl
      exact ⟨_, rfl, rfl, rfl⟩
  simp only [append_blank, if_neg hunstable, Bool.false_eq_true, if_false]
  split
  · exact hblank _ rfl rfl rfl
  · obtain ⟨hlog, hreq, hclt⟩ := remove_additional_frame (s.data.cid.size_0 - 1).toNat
      (s.set_cid { s.data.cid with state := CID_STABLE })
    exact hblank (settle_config s) hlog hreq hclt

theorem settle_config_state (s : apply_t) : (settle_config s).data.cid.state = CID_STABLE :=
  congrArg dare_cid_t.state (remove_additional_rest (s := s.set_cid { s.data.cid with state := CID_STABLE })
    (s.data.cid.size_0 - 1).toNat)

/-- A leader applies the CONFIG entry of its configuration. -/
theorem apply_step_config (hleader : IS_LEADER leader.data = true)
    (htype : entry_type leader.log.entries entry = CONFIG) :
    apply_step leader entry = apply_config leader entry := by
  simp [apply_step, hleader, htype, NOOP, CONFIG, HEAD]

/-- A server that is elected after the CONFIG entry of an unstable configuration was applied: it installs and
    appends the configuration of a leader that applies this entry just if the scan ends with the right state
    and both loops go over the same servers. -/
theorem reelection_finishes_iff (hunstable : s.data.cid.state = CID_EXTENDED ∨ s.data.cid.state = CID_TRANSIT)
    (hfollow : Follow s.log s.data.cid_offset entries) (hnewer : NoneNewer s.log cid_idx entries)
    (hfuel : entries.length < fuel) (hidx : s.data.idx < MAX_SERVER_COUNT)
    (hidx' : leader.data.idx < MAX_SERVER_COUNT) (hleader : IS_LEADER leader.data = true)
    (htype : entry_type leader.log.entries entry = CONFIG)
    (hlogged : dare_cid_t.read leader.log.entries (entry + DATA_OFFSET) = s.data.cid)
    (hcid : leader.data.cid = s.data.cid) :
    Finishes s (apply_step leader entry).data.cid (blank_after_scan s cid_idx fuel) ↔
      EndsAlike s entries := by
  have hresize : s.data.cid.state ≠ CID_STABLE := by
    obtain h | h := hunstable <;> rw [h] <;> decide
  have hmax : MAX_SERVER_COUNT = 13 := rfl
  have hopen : Open leader.data.cid s.data.cid := ⟨hresize, by rw [hcid]; exact UInt64.lt_irrefl _⟩
  rw [apply_step_config hleader htype, blank_after_scan_eq hfollow hnewer hfuel hresize, EndsAlike]
  cases entries.getLast? with
  | none => simp [Finishes]
  | some last =>
    rw [Option.map_some, finishes_blank_iff hresize]
    simp only [Option.some.injEq, exists_eq_left']
    generalize (dare_cid_t.read s.log.entries (last + DATA_OFFSET)).state = state
    have hne : CID_TRANSIT ≠ CID_EXTENDED := by decide
    obtain hstate | hstate := hunstable
    · rw [apply_config_extended hlogged hopen hstate, hcid, hstate]
      by_cases hread : state = CID_EXTENDED
      · simp [hread, hne.symm]
      · have hsettled : (settle_config s).data.cid ≠ { s.data.cid with state := CID_TRANSIT } := fun h => by
          have hends : CID_STABLE = CID_TRANSIT :=
            (settle_config_state s).symm.trans (congrArg dare_cid_t.state h)
          cases hends
        simp [hread, hsettled]
    · obtain ⟨stable, hstable, happlied⟩ := apply_config_transit hlogged hopen hstate
      rw [happlied, hstate]
      by_cases hread : state = CID_EXTENDED
      · have hends : stable.state = CID_STABLE :=
          congrArg dare_cid_t.state (hstable.trans (remove_servers_rest _ _))
        rw [if_pos hread]
        constructor
        · intro h
          have hkept : CID_TRANSIT = CID_STABLE := (congrArg dare_cid_t.state h).trans hends
          cases hkept
        · exact fun h => absurd (h.1.mp hread) hne
      · rw [if_neg hread, settle_alike_iff (by omega) (by omega) hcid hstable]
        simp [hread, hne]

/-- The log with the CONFIG entry of a configuration and a NOOP entry behind it. -/
def resizing_log (cid : dare_cid_t) : dare_log_t :=
  (log_append_entry (log_append_entry log_new 1 0 0 (.config cid)).1 1 0 0 .noop).1

/-- The leader of the second term, which has polled the CONFIG entry. -/
def resizing (cid : dare_cid_t) : apply_t where
  data :=
    { (init_server_data 0 3).get admits_three with
      cid := cid
      cid_offset := SIZEOF_ENTRY
      sid := mk_sid 2 true 0
      log := resizing_log cid }
  req_id := 0
  clt_id := 0
  die_af_commit := false
  last_applied_entry := ⟨0, 0, 0⟩
  last_cmt_write_csm_idx := 0
  running := true
  calls := []

/-- Three servers become four. -/
def growing (state : UInt8) : dare_cid_t := ⟨1, 3, 4, state, 15⟩

/-- Five servers become three. -/
def shrinking : dare_cid_t := ⟨1, 5, 3, CID_TRANSIT, 31⟩

theorem resizing_follow {cid : dare_cid_t} (hget : log_get_entry (resizing cid).log SIZEOF_ENTRY = some SIZEOF_ENTRY)
    (hfit : log_fit_entry (resizing cid).log SIZEOF_ENTRY SIZEOF_ENTRY = true)
    (hend : log_offset_end_distance (resizing cid).log
      (SIZEOF_ENTRY + log_entry_len (resizing cid).log.entries SIZEOF_ENTRY) = 0) :
    Follow (resizing cid).log (resizing cid).data.cid_offset [SIZEOF_ENTRY] :=
  .cons hget hfit (.nil hend)

/-- A group that has grown; its CONFIG entry is the first one of the log. -/
theorem grown_group_finishes :
    Finishes (resizing (growing CID_TRANSIT)) (apply_step (resizing (growing CID_TRANSIT)) 0).data.cid
      (blank_after_scan (resizing (growing CID_TRANSIT)) 1 2) := by
  have hsame : SameServers (growing CID_TRANSIT) := by
    rw [SameServers, if_neg (by decide)]
    decide
  have hfollow := @resizing_follow (growing CID_TRANSIT) (by decide +kernel) (by decide +kernel)
    (by decide +kernel)
  refine (reelection_finishes_iff (.inr rfl) hfollow (by decide +kernel) (by decide) (by decide) (by decide)
    (by decide +kernel) (by decide +kernel) (by decide +kernel) rfl).mpr ⟨SIZEOF_ENTRY, rfl, ?_, fun _ => hsame⟩
  decide +kernel

/-- Another configuration is installed. -/
theorem not_finishes_of_cid {cid cid' : dare_cid_t} {result : Option apply_t}
    (hresult : result.map (fun s => s.data.cid) = some cid') (hne : cid' ≠ cid) : ¬ Finishes s cid result := by
  rintro ⟨s', rfl, hcid, -⟩
  exact hne ((Option.some.inj hresult).symm.trans hcid)

/-- A NOOP entry follows the CONFIG entry, and a zero is read from it for the state. An extended configuration
    becomes stable without a transit, and a group that shrinks keeps its fourth server. -/
theorem reelection_differs :
    (NoneNewer (resizing (growing CID_EXTENDED)).log 1 [SIZEOF_ENTRY] ∧
      Follow (resizing (growing CID_EXTENDED)).log (resizing (growing CID_EXTENDED)).data.cid_offset
        [SIZEOF_ENTRY] ∧
      ¬ Finishes (resizing (growing CID_EXTENDED)) (apply_step (resizing (growing CID_EXTENDED)) 0).data.cid
        (blank_after_scan (resizing (growing CID_EXTENDED)) 1 2)) ∧
    (NoneNewer (resizing shrinking).log 1 [SIZEOF_ENTRY] ∧
      Follow (resizing shrinking).log (resizing shrinking).data.cid_offset [SIZEOF_ENTRY] ∧
      ¬ Finishes (resizing shrinking) (apply_step (resizing shrinking) 0).data.cid
        (blank_after_scan (resizing shrinking) 1 2)) := by
  refine ⟨⟨by decide +kernel, resizing_follow (by decide +kernel) (by decide +kernel) (by decide +kernel), ?_⟩,
    ⟨by decide +kernel, resizing_follow (by decide +kernel) (by decide +kernel) (by decide +kernel), ?_⟩⟩
  · have hstable : (blank_after_scan (resizing (growing CID_EXTENDED)) 1 2).map (fun s => s.data.cid) =
        some ⟨1, 4, 0, CID_STABLE, 15⟩ := by decide +kernel
    exact not_finishes_of_cid hstable (by decide +kernel)
  · have hkept : (blank_after_scan (resizing shrinking) 1 2).map (fun s => s.data.cid) =
        some ⟨1, 3, 0, CID_STABLE, 15⟩ := by decide +kernel
    exact not_finishes_of_cid hkept (by decide +kernel)

end reelection

end dare.server
