import ReliableSocket.Dare.Rc.Wait
import ReliableSocket.Dare.Sid

namespace dare.rc

/-- The array of sends when all are posted: some of them may have completed meanwhile. -/
def PostedBy (cid : dare_cid_t) (idx : Nat) (own : Int) (connected : Nat → Bool) (posted_sends : Nat → Int) : Prop :=
  ∀ i, posted_sends i = post_sends cid idx own connected i ∨
    post_sends cid idx own connected i = 1 ∧ posted_sends i = 0

/-- The writes of a vote: the sends that were posted, to no server that is off or not connected and without one
    to the voter itself, and the polls while it waits. -/
structure vote_write_t (cid : dare_cid_t) (idx : Nat) where
  connected : Nat → Bool
  sends : sends_t
  polls : List poll_t
  posted : PostedBy cid idx 0 connected sends.posted_sends
  arriving : Arriving sends polls

/-- The reads of the vote of a server that has recovered. Its own slot counts as a failure. -/
structure vote_read_t (cid : dare_cid_t) (idx : Nat) where
  connected : Nat → Bool
  sends : sends_t
  polls : List poll_t
  posted : PostedBy cid idx (-1) connected sends.posted_sends
  arriving : Arriving sends polls

/-- The result of the writes is an error only if the completion queue cannot be polled. -/
def rc_replicate_vote (cid : dare_cid_t) (s : sends_t) (polls : List poll_t) : Option Int :=
  (wait_for_majority .CTRL_QP cid s polls).map fun r => if r.1 = .RC_ERROR then 1 else 0

/-- The last loop of `rc_get_replicated_vote`. -/
def best_vote (posted_sends : Nat → Int) (rsid : Nat → UInt64) (sid : UInt64) (size : Nat) : UInt64 :=
  (List.range size).foldl (fun sid i => if posted_sends i = 0 ∧ sid < rsid i then rsid i else sid) sid

/-- The result and the SID that the server has then. `rsid` is what the reads have brought. -/
def rc_get_replicated_vote (cid : dare_cid_t) (s : sends_t) (polls : List poll_t) (rsid : Nat → UInt64)
    (sid : UInt64) : Option (Int × UInt64) :=
  (wait_for_majority .CTRL_QP cid s polls).map fun r =>
    match r.1 with
    | .RC_ERROR => (1, sid)
    | .RC_INSUCCESS => (-1, sid)
    | .RC_SUCCESS => (0, best_vote r.2.1.posted_sends rsid sid (get_group_size cid))

/-- The SID with which `get_replicated_vote_cb` starts: leader of term zero. -/
def recovery_sid (sid : UInt64) (idx : Nat) : UInt64 := SID_SET_L (SID_SET_IDX (SID_SET_TERM sid 0) idx)

section write

variable {cid : dare_cid_t} {idx : Nat}

/-- `poll_vote_requests` goes on to the vote ACK. -/
def vote_write_t.SendsAck (w : vote_write_t cid idx) : Prop := rc_replicate_vote cid w.sends w.polls = some 0

/-- Another server has acknowledged the write. -/
def vote_write_t.Acknowledged (w : vote_write_t cid idx) (i : Nat) : Prop :=
  i ≠ idx ∧ Completed cid w.sends w.polls i

instance (w : vote_write_t cid idx) (i : Nat) : Decidable (w.Acknowledged i) := inferInstanceAs (Decidable (_ ∧ _))

/-- Another server of the group has not acknowledged the write. -/
def vote_write_t.Missing (w : vote_write_t cid idx) (i : Nat) : Prop :=
  i ≠ idx ∧ CID_IS_SERVER_ON cid i = true ∧ ¬ w.Acknowledged i

instance (w : vote_write_t cid idx) (i : Nat) : Decidable (w.Missing i) := inferInstanceAs (Decidable (_ ∧ _ ∧ _))

/-- No majority is among the servers that have not acknowledged the write. -/
def vote_write_t.Replicated (w : vote_write_t cid idx) : Prop :=
  ¬ Majority cid.size_0.toNat fun i => decide (w.Missing i)

/-- The reads bring the votes that the servers store, those that have acknowledged one for `sid` at least this
    one. A batch whose first completion succeeded has no failed completion of this round. -/
structure Recovers (w : vote_write_t cid idx) (sid : UInt64) (r : vote_read_t cid idx) (vote_sid rsid : Nat → UInt64) :
    Prop where
  stored : ∀ i, w.Acknowledged i → sid ≤ vote_sid i
  brought : ∀ i, Completed cid r.sends r.polls i → rsid i = vote_sid i
  kept : StatusKept r.sends.ssn r.polls

/-- If the voter has sent its vote ACK, then whatever reads succeed later, the SID obtained with them is not
    below the one it voted for. -/
def vote_write_t.Kept (w : vote_write_t cid idx) (sid : UInt64) : Prop :=
  w.SendsAck → ∀ r vote_sid rsid old obtained, Recovers w sid r vote_sid rsid →
    rc_get_replicated_vote cid r.sends r.polls rsid (recovery_sid old idx) = some (0, obtained) → sid ≤ obtained

end write

section reads

variable {cid : dare_cid_t} {idx : Nat} {s s' : sends_t} {polls rest : List poll_t}

/-- In a stable configuration a success means that more than half of the slots are zero at the end, each because
    of a completed operation. -/
theorem zero_slots_of_success (hstable : cid.state = CID_STABLE) (harriving : Arriving s polls)
    (hkept : StatusKept s.ssn polls) (hresult : wait_for_majority .CTRL_QP cid s polls = some (.RC_SUCCESS, s', rest)) :
    Majority cid.size_0.toNat (fun i => decide (s'.posted_sends i = 0)) ∧
      ∀ i, s'.posted_sends i = s.posted_sends i ∨
        s.posted_sends i = 1 ∧ s'.posted_sends i = 0 ∧ Completed cid s polls i := by
  rw [wait_for_majority] at hresult
  dsimp only at hresult
  split at hresult
  · cases hresult
  · cases hresult
  rename_i w rest hdone
  rw [if_pos hstable] at hresult
  simp only [Option.some.injEq, Prod.mk.injEq] at hresult
  obtain ⟨hsuccess, rfl, -⟩ := hresult
  obtain ⟨used, -, hw, hused, -⟩ := waited_first harriving hkept hdone
  refine ⟨?_, fun i => (hw.slot i).imp_right fun h => ⟨h.1, h.2.1, ?_⟩⟩
  · have hcount := lt_of_wait_result hsuccess
    rw [hw.count] at hcount
    exact hcount
  · obtain ⟨-, -, wc, hmem, hrest⟩ := h
    exact .inr ⟨wc, hused.subset hmem, hrest⟩

theorem best_vote_succ (posted_sends : Nat → Int) (rsid : Nat → UInt64) (sid : UInt64) (size : Nat) :
    best_vote posted_sends rsid sid (size + 1) =
      if posted_sends size = 0 ∧ best_vote posted_sends rsid sid size < rsid size then rsid size
      else best_vote posted_sends rsid sid size := by
  rw [best_vote, List.range_succ, List.foldl_append]
  rfl

theorem le_best_vote {posted_sends : Nat → Int} (rsid : Nat → UInt64) (sid : UInt64) {size i : Nat} (hi : i < size)
    (hzero : posted_sends i = 0) : rsid i ≤ best_vote posted_sends rsid sid size := by
  induction size with
  | zero => exact absurd hi (Nat.not_lt_zero i)
  | succ size ih =>
    rw [best_vote_succ]
    obtain hlt | rfl := Nat.lt_or_eq_of_le (Nat.le_of_lt_succ hi)
    · split
      · rename_i hbetter
        exact UInt64.le_trans (ih hlt) (UInt64.le_of_lt hbetter.2)
      · exact ih hlt
    · split
      · exact UInt64.le_refl _
      · rename_i hnot
        exact UInt64.not_lt.mp fun hlt => hnot ⟨hzero, hlt⟩

/-- Votes for nothing change nothing. -/
theorem best_vote_of_none {posted_sends : Nat → Int} {rsid : Nat → UInt64} (sid : UInt64) {size : Nat}
    (hnone : ∀ i < size, posted_sends i = 0 → rsid i = 0) : best_vote posted_sends rsid sid size = sid := by
  induction size with
  | zero => rfl
  | succ size ih =>
    rw [best_vote_succ, ih fun i hi => hnone i (Nat.lt_succ_of_lt hi), if_neg]
    rintro ⟨hzero, hlt⟩
    rw [hnone size (Nat.lt_succ_self size) hzero] at hlt
    exact UInt64.not_lt_zero hlt

theorem get_group_size_stable (hstable : cid.state = CID_STABLE) : get_group_size cid = cid.size_0.toNat := by
  rw [get_group_size, if_pos]
  rw [hstable]
  decide

/-- A slot of the reader becomes zero only for another server that is in the configuration. -/
theorem PostedBy.other {connected : Nat → Bool} {posted_sends : Nat → Int}
    (hposted : PostedBy cid idx (-1) connected posted_sends) {i : Nat} (hi : i < get_group_size cid)
    (hslot : posted_sends i = 0 ∨ posted_sends i = 1) : i ≠ idx ∧ CID_IS_SERVER_ON cid i = true := by
  have hpost : post_sends cid idx (-1) connected i = 0 ∨ post_sends cid idx (-1) connected i = 1 := by
    obtain h | ⟨h, -⟩ := hposted i
    · exact h ▸ hslot
    · exact .inr h
  rw [post_sends, if_pos hi] at hpost
  by_cases hidx : i = idx
  · rw [if_pos hidx] at hpost
    omega
  · rw [if_neg hidx] at hpost
    cases hon : CID_IS_SERVER_ON cid i with
    | false => simp [hon] at hpost
    | true => exact ⟨hidx, rfl⟩

end reads

section votes

variable {cid : dare_cid_t} {idx : Nat} {w : vote_write_t cid idx} {sid : UInt64}

theorem recovery_sid_lt (old : UInt64) (hidx : idx < MAX_SERVER_COUNT) (hterm : SID_GET_TERM sid ≠ 0) :
    recovery_sid old idx < sid := by
  have hmax : MAX_SERVER_COUNT = 13 := rfl
  have hvote : 512 ≤ sid.toNat := by
    by_contra hsmall
    refine hterm (UInt64.toNat_inj.mp ?_)
    rw [sid_get_term]
    exact Nat.div_eq_of_lt (Nat.lt_of_not_le hsmall)
  rw [UInt64.lt_iff_toNat_lt, recovery_sid, sid_set_l, sid_set_idx _ (by omega), sid_set_term]
  have hzero : (0 : UInt64).toNat = 0 := rfl
  rw [hzero]
  split <;> omega

/-- A majority of reads meets a server that has acknowledged the vote. -/
theorem kept_of_replicated (hstable : cid.state = CID_STABLE) (hreplicated : w.Replicated) : w.Kept sid := by
  intro _ r vote_sid rsid old obtained hrecovers hread
  rw [rc_get_replicated_vote, Option.map_eq_some_iff] at hread
  obtain ⟨⟨rc, s', rest⟩, hwait, hresult⟩ := hread
  cases rc with
  | RC_ERROR => exact absurd (congrArg Prod.fst hresult) (show (1 : Int) ≠ 0 by decide)
  | RC_INSUCCESS => exact absurd (congrArg Prod.fst hresult) (show (-1 : Int) ≠ 0 by decide)
  | RC_SUCCESS =>
    obtain ⟨hmajority, hslots⟩ := zero_slots_of_success hstable r.arriving hrecovers.kept hwait
    have hsize := get_group_size_stable hstable
    obtain ⟨i, hi, hzero, hacknowledged⟩ :
        ∃ i < cid.size_0.toNat, s'.posted_sends i = 0 ∧ w.Acknowledged i := by
      by_contra hnone
      refine hreplicated (Nat.lt_of_lt_of_le hmajority (List.countP_mono_left fun i hi hzero => ?_))
      have hlt := List.mem_range.mp hi
      have hzero := of_decide_eq_true hzero
      have hslot : r.sends.posted_sends i = 0 ∨ r.sends.posted_sends i = 1 := by
        obtain hsame | ⟨hone, -⟩ := hslots i
        · exact .inl (hsame ▸ hzero)
        · exact .inr hone
      obtain ⟨hother, hon⟩ := r.posted.other (hsize ▸ hlt) hslot
      exact decide_eq_true ⟨hother, hon, fun hacknowledged => hnone ⟨i, hlt, hzero, hacknowledged⟩⟩
    have hcompleted : Completed cid r.sends r.polls i := by
      obtain hsame | ⟨-, -, hcompleted⟩ := hslots i
      · exact .inl ⟨hsize ▸ hi, hsame ▸ hzero⟩
      · exact hcompleted
    have hread := le_best_vote rsid (recovery_sid old idx) (hsize ▸ hi) hzero
    rw [hrecovers.brought i hcompleted] at hread
    obtain rfl : best_vote s'.posted_sends rsid (recovery_sid old idx) (get_group_size cid) = obtained :=
      congrArg Prod.snd hresult
    exact UInt64.le_trans (hrecovers.stored i hacknowledged) hread

/-- The reads of a recovered server that reaches just the servers that have not acknowledged the vote; they
    complete while they are posted. -/
def missing_slots (w : vote_write_t cid idx) (i : Nat) : Int :=
  if i < get_group_size cid then if w.Missing i then 0 else -1 else 0

theorem missing_slots_posted (w : vote_write_t cid idx) :
    PostedBy cid idx (-1) (fun i => decide (w.Missing i)) (missing_slots w) := by
  intro i
  rw [missing_slots, post_sends]
  by_cases hi : i < get_group_size cid
  · by_cases hmissing : w.Missing i
    · right
      simp [hi, hmissing, hmissing.1, hmissing.2.1]
    · left
      simp [hi, hmissing]
  · left
    simp [hi]

theorem missing_slots_arriving (w : vote_write_t cid idx) : Arriving (round_of (missing_slots w)) [] :=
  @one_by_one_arriving [] (fun _ => true) (missing_slots w) (fun _ hi => absurd hi List.not_mem_nil) List.nodup_nil

def missing_reads (w : vote_write_t cid idx) : vote_read_t cid idx where
  connected := fun i => decide (w.Missing i)
  sends := round_of (missing_slots w)
  polls := []
  posted := missing_slots_posted w
  arriving := missing_slots_arriving w

/-- The reads are enough. -/
theorem missing_reads_succeed (hstable : cid.state = CID_STABLE) (hmissing : ¬ w.Replicated) :
    wait_for_majority .CTRL_QP cid (missing_reads w).sends (missing_reads w).polls =
      some (.RC_SUCCESS, (missing_reads w).sends, []) := by
  have hsize := get_group_size_stable hstable
  have hcount : cid.size_0.toNat / 2 < (start_wait cid (missing_reads w).sends).success_count := by
    rw [vote_write_t.Replicated, not_not] at hmissing
    refine Nat.lt_of_lt_of_le hmissing (List.countP_mono_left fun i hi h => decide_eq_true ?_)
    have hlt := List.mem_range.mp hi
    show missing_slots w i = 0
    rw [missing_slots, if_pos (hsize ▸ hlt), if_pos (of_decide_eq_true h)]
  have hstop : ¬ waits cid.size_0.toNat (start_wait cid (missing_reads w).sends) :=
    fun h => absurd hcount (Nat.not_lt.mpr h.1)
  dsimp only [wait_for_majority]
  rw [wait_for_size_of_not_waits .CTRL_QP hstop]
  dsimp only
  rw [if_pos hstable, wait_result, if_pos hcount]
  rfl

/-- A recovered server that reaches only servers that have not acknowledged the vote does not get it. -/
theorem not_kept_of_missing (hstable : cid.state = CID_STABLE) (hidx : idx < MAX_SERVER_COUNT)
    (hterm : SID_GET_TERM sid ≠ 0) (hack : w.SendsAck) (hmissing : ¬ w.Replicated) : ¬ w.Kept sid := by
  intro hkept
  obtain ⟨vote_sid, hvotes⟩ : ∃ vote_sid : Nat → UInt64, ∀ i, vote_sid i = if w.Acknowledged i then sid else 0 :=
    ⟨_, fun _ => rfl⟩
  have hrecovers : Recovers w sid (missing_reads w) vote_sid vote_sid := by
    refine ⟨fun i h => ?_, fun _ _ => rfl, fun batch hbatch => absurd hbatch List.not_mem_nil⟩
    rw [hvotes, if_pos h]
    exact UInt64.le_refl _
  have hnone : best_vote (missing_slots w) vote_sid (recovery_sid 0 idx) (get_group_size cid) =
      recovery_sid 0 idx := by
    refine best_vote_of_none _ fun i hi hzero => ?_
    rw [missing_slots, if_pos hi] at hzero
    have hmissing : w.Missing i := by
      by_contra hnot
      rw [if_neg hnot] at hzero
      exact absurd hzero (by decide)
    rw [hvotes, if_neg hmissing.2.2]
  have hread : rc_get_replicated_vote cid (missing_reads w).sends (missing_reads w).polls vote_sid
      (recovery_sid 0 idx) = some (0, recovery_sid 0 idx) := by
    rw [rc_get_replicated_vote, missing_reads_succeed hstable hmissing]
    exact congrArg (fun obtained => some ((0 : Int), obtained)) hnone
  exact absurd (hkept hack _ _ _ 0 _ hrecovers hread) (UInt64.not_le.mpr (recovery_sid_lt 0 hidx hterm))

/-- A recovered server cannot contradict the vote for `sid`, whichever of its reads succeed, if and only if a vote
    ACK was sent only when no majority was without an acknowledged write. -/
theorem recovered_vote_iff (hstable : cid.state = CID_STABLE) (hidx : idx < MAX_SERVER_COUNT)
    (hterm : SID_GET_TERM sid ≠ 0) (w : vote_write_t cid idx) :
    w.Kept sid ↔ (w.SendsAck → w.Replicated) := by
  constructor
  · intro hkept hack
    by_contra hmissing
    exact not_kept_of_missing hstable hidx hterm hack hmissing hkept
  · intro hreplicated hack
    exact kept_of_replicated hstable (hreplicated hack) hack

/-- A wait that succeeds is enough: the check of its result is what `rc_replicate_vote` lacks. -/
theorem replicated_of_success (hstable : cid.state = CID_STABLE) (hkept : StatusKept w.sends.ssn w.polls)
    {s' : sends_t} (hwait : wait_for_majority .CTRL_QP cid w.sends w.polls = some (.RC_SUCCESS, s', [])) :
    w.Replicated := by
  have hquorum := (quorum_of_success w.arriving hkept (fun h => absurd hstable h) s' hwait).1
  have hsplit := List.length_eq_countP_add_countP (fun i => decide (Completed cid w.sends w.polls i))
    (l := List.range cid.size_0.toNat)
  have hmissing : (List.range cid.size_0.toNat).countP (fun i => decide (w.Missing i)) ≤
      (List.range cid.size_0.toNat).countP fun i => !decide (Completed cid w.sends w.polls i) := by
    refine List.countP_mono_left fun i _ h => ?_
    have h := of_decide_eq_true h
    rw [Bool.not_eq_true', decide_eq_false_iff_not]
    exact fun hcompleted => h.2.2 ⟨h.1, hcompleted⟩
  simp only [decide_not, Bool.decide_eq_true, List.length_range] at hsplit
  rw [Majority] at hquorum
  rw [vote_write_t.Replicated, Majority]
  omega

end votes

section three

def group_of_three : dare_cid_t := ⟨0, 3, 0, CID_STABLE, 7⟩

theorem writes_of_three_arriving (acknowledged : Nat → Bool) :
    Arriving (round_of (post_sends group_of_three 0 0 fun _ => true)) (one_by_one acknowledged [1, 2]) :=
  one_by_one_arriving (by decide) (by decide)

/-- Server 0 of three writes its vote to the others, and these servers acknowledge it. -/
def writes_of_three (acknowledged : Nat → Bool) : vote_write_t group_of_three 0 where
  connected := fun _ => true
  sends := round_of (post_sends group_of_three 0 0 fun _ => true)
  polls := one_by_one acknowledged [1, 2]
  posted := fun _ => .inl rfl
  arriving := writes_of_three_arriving acknowledged

/-- One acknowledged write is enough in a group of three. -/
theorem vote_of_three_kept : (writes_of_three fun i => decide (i = 1)).Kept (mk_sid 2 false 1) := by
  refine (recovered_vote_iff rfl (by decide) (by decide) _).mpr fun _ => ?_
  unfold vote_write_t.Replicated
  decide

/-- Both writes fail, but the vote ACK is sent. -/
theorem vote_of_three_lost : ¬ (writes_of_three fun _ => false).Kept (mk_sid 2 false 1) := by
  refine not_kept_of_missing rfl (by decide) (by decide) ?_ ?_
  · unfold vote_write_t.SendsAck
    decide
  · unfold vote_write_t.Replicated
    decide

end three

end dare.rc
