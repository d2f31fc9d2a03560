import ReliableSocket.Dare.Rc.Replication
import ReliableSocket.Rank

open dare.log dare.server

namespace dare.rc

section sort

variable {offset : Nat} {offsets : List Nat}

theorem insert_offset_perm (offset : Nat) (offsets : List Nat) :
    (insert_offset offset offsets).Perm (offset :: offsets) := by
  induction offsets with
  | nil => exact List.Perm.refl _
  | cons x xs ih =>
    rw [insert_offset]
    split
    · exact List.Perm.refl _
    · exact (ih.cons x).trans (List.Perm.swap offset x xs)

theorem insert_offset_sorted (hsorted : offsets.Pairwise (· ≤ ·)) :
    (insert_offset offset offsets).Pairwise (· ≤ ·) := by
  induction offsets with
  | nil => exact List.pairwise_singleton _ _
  | cons x xs ih =>
    obtain ⟨hx, hxs⟩ := List.pairwise_cons.mp hsorted
    rw [insert_offset]
    split
    · rename_i hlt
      refine List.pairwise_cons.mpr ⟨fun y hy => ?_, hsorted⟩
      obtain rfl | hy := List.mem_cons.mp hy
      · omega
      · exact Nat.le_trans (Nat.le_of_lt hlt) (hx y hy)
    · rename_i hge
      refine List.pairwise_cons.mpr ⟨fun y hy => ?_, ih hxs⟩
      obtain rfl | hy := List.mem_cons.mp ((insert_offset_perm offset xs).mem_iff.mp hy)
      · omega
      · exact hx y hy

theorem foldl_insert_offset (offsets sorted : List Nat) (hsorted : sorted.Pairwise (· ≤ ·)) :
    (offsets.foldl (fun sorted offset => insert_offset offset sorted) sorted).Perm (offsets ++ sorted) ∧
      (offsets.foldl (fun sorted offset => insert_offset offset sorted) sorted).Pairwise (· ≤ ·) := by
  induction offsets generalizing sorted with
  | nil => exact ⟨List.Perm.refl _, hsorted⟩
  | cons x xs ih =>
    obtain ⟨hperm, hpairwise⟩ := ih (insert_offset x sorted) (insert_offset_sorted hsorted)
    refine ⟨hperm.trans ?_, hpairwise⟩
    exact ((insert_offset_perm x sorted).append_left xs).trans List.perm_middle

theorem sort_offsets_perm (offsets : List Nat) : (sort_offsets offsets).Perm offsets := by
  simpa [sort_offsets] using (foldl_insert_offset offsets [] List.Pairwise.nil).1

theorem sort_offsets_sorted (offsets : List Nat) : (sort_offsets offsets).Pairwise (· ≤ ·) :=
  (foldl_insert_offset offsets [] List.Pairwise.nil).2

end sort

section median

variable {data : dare_server_data_t} {size : Nat}

/-- The offset of a rank among the first `size` servers, in numerical order. -/
def offset_of_rank (data : dare_server_data_t) (size k : Nat) : Nat :=
  ((sort_offsets ((List.range size).map (valid_offset data)))[k]?).getD data.log.commit

/-- The offset in the middle of the sorted offsets of the first `size` servers. -/
def numerical_median (data : dare_server_data_t) (size : Nat) : Nat := offset_of_rank data size ((size - 1) / 2)

/-- How many of the first `size` servers have a log that is valid up to the offset, in the circular
    order. -/
def reached (data : dare_server_data_t) (size offset : Nat) : Nat :=
  (List.range size).countP fun i => !log_is_offset_larger data.log offset (valid_offset data i)

/-- How many of the first `size` servers have their offset in the part of the log that comes after the
    wrap. -/
def past_wrap (data : dare_server_data_t) (size : Nat) : Nat :=
  (List.range size).countP fun i => valid_offset data i < data.log.commit

theorem offset_of_rank_eq (data : dare_server_data_t) {k : Nat} (hk : k < size) :
    (sort_offsets ((List.range size).map (valid_offset data)))[k]? = some (offset_of_rank data size k) := by
  have hlength : (sort_offsets ((List.range size).map (valid_offset data))).length = size := by
    rw [(sort_offsets_perm _).length_eq, List.length_map, List.length_range]
  rw [offset_of_rank, List.getElem?_eq_getElem (by omega), Option.getD_some]

theorem numerical_median_eq (data : dare_server_data_t) (hsize : 0 < size) :
    (sort_offsets ((List.range size).map (valid_offset data)))[(size - 1) / 2]? =
      some (numerical_median data size) :=
  offset_of_rank_eq data (by omega)

/-- Counting servers is counting their sorted offsets. -/
theorem countP_servers (p : Nat → Bool) :
    (List.range size).countP (fun i => p (valid_offset data i)) =
      (sort_offsets ((List.range size).map (valid_offset data))).countP p := by
  rw [(sort_offsets_perm _).countP_eq, List.countP_map]
  rfl

/-- At most `k` servers are below an offset exactly if it is not above the one of rank `k`. -/
theorem below_le_iff (data : dare_server_data_t) {k : Nat} (hk : k < size) (offset : Nat) :
    ((List.range size).countP fun i => decide (valid_offset data i < offset)) ≤ k ↔
      offset ≤ offset_of_rank data size k := by
  rw [countP_servers fun o => decide (o < offset)]
  exact rank.count_lt_le_iff (sort_offsets_sorted _) (offset_of_rank_eq data hk) offset

theorem offset_of_rank_mono (data : dare_server_data_t) {k m : Nat} (hkm : k ≤ m) (hm : m < size) :
    offset_of_rank data size k ≤ offset_of_rank data size m :=
  rank.le_of_index_le (sort_offsets_sorted _) (offset_of_rank_eq data (by omega)) (offset_of_rank_eq data hm) hkm

/-- A majority is numerically at or above the median. -/
theorem majority_above_median (data : dare_server_data_t) (hsize : 0 < size) :
    size / 2 + 1 ≤
      (List.range size).countP fun i => decide (numerical_median data size ≤ valid_offset data i) := by
  have hrank := rank.sub_le_count_ge (sort_offsets_sorted _) (numerical_median_eq data hsize)
  have hlength := (sort_offsets_perm ((List.range size).map (valid_offset data))).length_eq
  rw [List.length_map, List.length_range] at hlength
  rw [← countP_servers] at hrank
  omega

theorem below_median_le (data : dare_server_data_t) (hsize : 0 < size) :
    ((List.range size).countP fun i => decide (valid_offset data i < numerical_median data size)) ≤
      (size - 1) / 2 :=
  (below_le_iff data (by omega) _).mpr (Nat.le_refl _)

theorem lt_not_above_median (data : dare_server_data_t) (hsize : 0 < size) :
    (size - 1) / 2 <
      (List.range size).countP fun i => decide (valid_offset data i ≤ numerical_median data size) := by
  rw [countP_servers fun o => decide (o ≤ numerical_median data size)]
  exact rank.lt_count_le (sort_offsets_sorted _) (numerical_median_eq data hsize)

theorem median_offset_cases (data : dare_server_data_t) (offset : Nat) (hsize : 0 < size) :
    median_offset data offset size =
      if ((List.range size).filter (counts_as_larger data offset)).length < size / 2 then none
      else some (numerical_median data size) := by
  rw [median_offset, numerical_median_eq data hsize]

/-- The commit offset moves only to a larger one. -/
theorem update_commit_moves (hmoves : (update_commit data).log.commit ≠ data.log.commit) :
    (update_commit data).log.commit = min_offset data ∧
      log_is_offset_larger data.log (min_offset data) data.log.commit = true ∧
      data.log.end_ ≠ data.log.len := by
  unfold update_commit at hmoves ⊢
  split at hmoves
  · rename_i hlarger
    rw [if_pos hlarger]
    refine ⟨rfl, hlarger, fun hempty => ?_⟩
    simp [log_is_offset_larger, log_offset_end_distance, hempty] at hlarger
  · exact absurd rfl hmoves

end median

section circular

variable {log : dare_log_t} {c o : Nat}

theorem end_distance_cases (hend : log.end_ ≠ log.len) (o : Nat) :
    (o ≤ log.end_ ∧ log_offset_end_distance log o = log.end_ - o) ∨
      (log.end_ < o ∧ log_offset_end_distance log o = log.len - (o - log.end_)) := by
  rw [log_offset_end_distance, if_neg hend]
  by_cases ho : o ≤ log.end_
  · exact .inl ⟨ho, if_pos ho⟩
  · exact .inr ⟨Nat.lt_of_not_le ho, if_neg ho⟩

/-- From the commit offset on, the part of the log before the wrap is in numerical order. -/
theorem not_larger_of_le (hend : log.end_ ≠ log.len) (ho : o < log.len)
    (hbetween : log_is_offset_larger log log.commit o = false) (hc : log.commit ≤ c) (hle : c ≤ o) :
    log_is_offset_larger log c o = false := by
  have hdist := end_distance_cases hend o
  have hdist' := end_distance_cases hend c
  have hcommit := end_distance_cases hend log.commit
  simp only [log_is_offset_larger, decide_eq_false_iff_not] at hbetween ⊢
  omega

/-- An offset after the wrap is reached exactly by the larger ones after the wrap. -/
theorem not_larger_past_wrap (hend : log.end_ ≠ log.len) (ho : o < log.len) (hlen : c < log.len)
    (hbetween : log_is_offset_larger log log.commit o = false)
    (hbetween' : log_is_offset_larger log log.commit c = false) (hc : c < log.commit) :
    log_is_offset_larger log c o = false ↔ o < log.commit ∧ c ≤ o := by
  have hdist := end_distance_cases hend o
  have hdist' := end_distance_cases hend c
  have hcommit := end_distance_cases hend log.commit
  simp only [log_is_offset_larger, decide_eq_false_iff_not] at hbetween hbetween' ⊢
  omega

/-- Without a wrap the circular order is the numerical one. -/
theorem not_larger_iff_le (hend : log.end_ ≠ log.len) (hc : c ≤ log.end_) (ho : o ≤ log.end_) :
    log_is_offset_larger log c o = false ↔ c ≤ o := by
  have hdist := end_distance_cases hend o
  have hdist' := end_distance_cases hend c
  simp only [log_is_offset_larger, decide_eq_false_iff_not]
  omega

end circular

section commit

variable {data : dare_server_data_t} {n : Nat}

theorem numerical_median_mem (data : dare_server_data_t) (hsize : 0 < n) :
    ∃ i < n, valid_offset data i = numerical_median data n := by
  have hmem := (sort_offsets_perm _).mem_iff.mp (List.mem_of_getElem? (numerical_median_eq data hsize))
  obtain ⟨i, hi, heq⟩ := List.mem_map.mp hmem
  exact ⟨i, List.mem_range.mp hi, heq⟩

theorem countP_range_congr {p q : Nat → Bool} (h : ∀ i < n, p i = q i) :
    (List.range n).countP p = (List.range n).countP q := by
  refine List.countP_congr fun i hi => ?_
  rw [h i (List.mem_range.mp hi)]

theorem countP_range_mono {p q : Nat → Bool} (h : ∀ i < n, p i = true → q i = true) :
    (List.range n).countP p ≤ (List.range n).countP q :=
  List.countP_mono_left fun i hi => h i (List.mem_range.mp hi)

/-- The search in one group: it finds the median, if it finds something new at all. -/
theorem min_offset_of_not_transit (hstate : data.cid.state ≠ CID_TRANSIT)
    (hlarger : log_is_offset_larger data.log (min_offset data) data.log.commit = true) :
    0 < data.cid.size_0.toNat ∧ min_offset data = numerical_median data data.cid.size_0.toNat := by
  have hmin : min_offset data =
      (median_offset data data.log.commit data.cid.size_0.toNat).getD data.log.commit := by
    rw [min_offset]
    exact if_pos hstate
  have hself : log_is_offset_larger data.log data.log.commit data.log.commit = false := by
    simp [log_is_offset_larger]
  rw [hmin] at hlarger ⊢
  obtain hzero | hsize := Nat.eq_zero_or_pos data.cid.size_0.toNat
  · rw [hzero, median_offset] at hlarger
    simp [sort_offsets, hself] at hlarger
  · rw [median_offset_cases data _ hsize] at hlarger ⊢
    split at hlarger
    · rw [Option.getD_none, hself] at hlarger
      cases hlarger
    · rename_i hcount
      rw [if_neg hcount]
      exact ⟨hsize, rfl⟩

/-- The servers past the wrap that are numerically at or above an offset past the wrap. -/
theorem past_wrap_above (data : dare_server_data_t) (n : Nat) {offset : Nat} (hpast : offset < data.log.commit) :
    ((List.range n).countP fun i =>
        decide (valid_offset data i < data.log.commit ∧ offset ≤ valid_offset data i)) +
      ((List.range n).countP fun i => decide (valid_offset data i < offset)) = past_wrap data n := by
  induction n with
  | zero => rfl
  | succ n ih =>
    unfold past_wrap at ih ⊢
    simp only [List.range_succ, List.countP_append, List.countP_singleton, decide_eq_true_eq]
    split <;> split <;> split <;> omega

/-- In a configuration that is not transitional, with offsets between the commit and the end offset: the
    new commit offset is reached by a majority exactly when at most `(n - 1) / 2` servers are past the
    wrap, or more than `n / 2` are and the offsets between the rank that a majority of these has and the
    middle rank are the same. If all servers are past the wrap, these two ranks are one. -/
theorem commit_reached_by_majority_iff (hn : n = data.cid.size_0.toNat)
    (hstate : data.cid.state ≠ CID_TRANSIT) (hbuffer : ∀ i < n, valid_offset data i < data.log.len)
    (hbetween : ∀ i < n, log_is_offset_larger data.log data.log.commit (valid_offset data i) = false)
    (hmoves : (update_commit data).log.commit ≠ data.log.commit) :
    n / 2 + 1 ≤ reached data n (update_commit data).log.commit ↔
      past_wrap data n ≤ (n - 1) / 2 ∨
        n / 2 < past_wrap data n ∧
          offset_of_rank data n (past_wrap data n - (n / 2 + 1)) = offset_of_rank data n ((n - 1) / 2) := by
  obtain ⟨hcommit, hlarger, hend⟩ := update_commit_moves hmoves
  obtain ⟨hsize, hmedian⟩ := min_offset_of_not_transit hstate hlarger
  rw [← hn] at hsize hmedian
  rw [hcommit, hmedian]
  obtain ⟨j, hj, hjmedian⟩ := numerical_median_mem data hsize
  obtain hpast | hbefore := Nat.lt_or_ge (numerical_median data n) data.log.commit
  · -- the servers at or after the median are the larger ones past the wrap
    have hcount : reached data n (numerical_median data n) = (List.range n).countP fun i =>
        valid_offset data i < data.log.commit ∧ numerical_median data n ≤ valid_offset data i := by
      refine countP_range_congr fun i hi => ?_
      have hiff := not_larger_past_wrap hend (hbuffer i hi) (hjmedian ▸ hbuffer j hj) (hbetween i hi)
        (hjmedian ▸ hbetween j hj) hpast
      rw [Bool.eq_iff_iff, Bool.not_eq_true', hiff, decide_eq_true_eq]
    have hmany : (n - 1) / 2 < past_wrap data n := by
      refine Nat.lt_of_lt_of_le (lt_not_above_median data hsize) (countP_range_mono ?_)
      intro i hi hle
      exact decide_eq_true (Nat.lt_of_le_of_lt (of_decide_eq_true hle) hpast)
    have hall : past_wrap data n ≤ n := by
      have hle := List.countP_le_length (p := fun i => decide (valid_offset data i < data.log.commit))
        (l := List.range n)
      rwa [List.length_range] at hle
    have hsum := past_wrap_above data n hpast
    have hbelow := below_le_iff data (show past_wrap data n - (n / 2 + 1) < n by omega) (numerical_median data n)
    have hmono : offset_of_rank data n (past_wrap data n - (n / 2 + 1)) ≤ numerical_median data n :=
      offset_of_rank_mono data (by omega) (by omega)
    rw [hcount]
    change _ ↔ _ ∨ _ ∧ _ = numerical_median data n
    generalize offset_of_rank data n (past_wrap data n - (n / 2 + 1)) = other at hbelow hmono ⊢
    omega
  · have hreached : n / 2 + 1 ≤ reached data n (numerical_median data n) := by
      refine Nat.le_trans (majority_above_median data hsize) (countP_range_mono ?_)
      intro i hi hle
      rw [not_larger_of_le hend (hbuffer i hi) (hbetween i hi) hbefore (of_decide_eq_true hle)]
      rfl
    have hfew : past_wrap data n ≤ (n - 1) / 2 := by
      refine Nat.le_trans (countP_range_mono ?_) (below_median_le data hsize)
      intro i hi hlt
      exact decide_eq_true (Nat.lt_of_lt_of_le (of_decide_eq_true hlt) hbefore)
    exact iff_of_true hreached (.inl hfew)

/-- Server 0 as the leader of a group of which all servers have their logs adjusted, with the end offsets
    of the others. -/
def leading (cid : dare_cid_t) (len commit end_ : Nat) (ends : List Nat) : dare_server_data_t :=
  { (init_server_data 0 3).get admits_three with
    cid := cid
    log := { log_new with len := len, commit := commit, end_ := end_ }
    servers := fun _ => ⟨⟨0, 0⟩, 0, 0, .LR_UPDATE_LOG, true, 0, true, true⟩
    log_offsets := fun i => ⟨commit, ends.getD i commit⟩ }

def stable_cid : dare_cid_t := ⟨0, 3, 0, CID_STABLE, 7⟩

theorem two_of_three_before_wrap :
    let data := leading stable_cid 1000 900 100 [100, 950, 920]
    (update_commit data).log.commit = 920 ∧
      3 / 2 + 1 ≤ reached data 3 (update_commit data).log.commit := by
  intro data
  exact ⟨by decide, (@commit_reached_by_majority_iff data 3 rfl (by decide) (by decide) (by decide)
    (by decide)).mpr (.inl (by decide))⟩

/-- Two of three servers are past the wrap: the leader commits up to its own end, which no other server
    has reached. -/
theorem leader_commits_alone :
    let data := leading stable_cid 1000 900 100 [100, 50, 950]
    (∀ i < 3, log_is_offset_larger data.log data.log.commit (valid_offset data i) = false) ∧
      (update_commit data).log.commit = 100 ∧ reached data 3 100 = 1 := by
  decide

/-- Without a wrap a smaller offset is reached by more servers. -/
theorem reached_eq_above {c : Nat} (hend : data.log.end_ ≠ data.log.len) (hc : c ≤ data.log.end_)
    (hends : ∀ i < n, valid_offset data i ≤ data.log.end_) :
    reached data n c = (List.range n).countP fun i => decide (c ≤ valid_offset data i) := by
  refine countP_range_congr fun i hi => ?_
  rw [Bool.eq_iff_iff, Bool.not_eq_true', not_larger_iff_le hend hc (hends i hi), decide_eq_true_eq]

/-- What the two passes find in a transitional configuration without a wrap, if it is something new. -/
theorem min_offset_of_transit {n₀ n₁ : Nat} (hn₀ : n₀ = data.cid.size_0.toNat)
    (hn₁ : n₁ = data.cid.size_1.toNat) (hsize : 0 < n₁) (hstate : data.cid.state = CID_TRANSIT)
    (hnowrap : ∀ i < max n₀ n₁,
      data.log.commit ≤ valid_offset data i ∧ valid_offset data i ≤ data.log.end_)
    (hend : data.log.end_ ≠ data.log.len)
    (hlarger : log_is_offset_larger data.log (min_offset data) data.log.commit = true) :
    0 < n₀ ∧ min_offset data =
      if ((List.range n₁).filter (counts_as_larger data (numerical_median data n₀))).length < n₁ / 2 then
        numerical_median data n₀
      else min (numerical_median data n₀) (numerical_median data n₁) := by
  obtain ⟨j, hj, hjmedian⟩ := numerical_median_mem data hsize
  have hnew := hnowrap j (by omega)
  rw [hjmedian] at hnew
  have hself : log_is_offset_larger data.log data.log.commit data.log.commit = false := by
    simp [log_is_offset_larger]
  unfold min_offset at hlarger ⊢
  simp only [ne_eq, hstate, not_true_eq_false, if_false, ← hn₀, ← hn₁,
    median_offset_cases data _ hsize] at hlarger ⊢
  cases hfirst : median_offset data data.log.commit n₀ with
  | none =>
    -- the second pass only lowers the commit offset, which is the lowest one
    have hlow : log_is_offset_larger data.log data.log.commit (numerical_median data n₁) = false :=
      (not_larger_iff_le hend (by omega) hnew.2).mpr hnew.1
    simp only [hfirst, Option.getD_none] at hlarger
    split at hlarger
    · rw [hself] at hlarger
      cases hlarger
    · rename_i median hmedian
      split at hmedian
      · cases hmedian
      · obtain rfl : numerical_median data n₁ = median := by simpa using hmedian
        rw [hlow, if_neg (by decide), hself] at hlarger
        cases hlarger
  | some first =>
    have hsize₀ : 0 < n₀ := by
      by_contra hzero
      obtain rfl : n₀ = 0 := by omega
      simp [median_offset, sort_offsets] at hfirst
    obtain rfl : first = numerical_median data n₀ := by
      rw [median_offset_cases data _ hsize₀] at hfirst
      split at hfirst
      · cases hfirst
      · exact (Option.some.inj hfirst).symm
    refine ⟨hsize₀, ?_⟩
    rw [Option.getD_some]
    by_cases hcount : ((List.range n₁).filter
        (counts_as_larger data (numerical_median data n₀))).length < n₁ / 2
    · rw [if_pos hcount, if_pos hcount]
    · rw [if_neg hcount, if_neg hcount]
      obtain ⟨k, hk, hkmedian⟩ := numerical_median_mem data hsize₀
      have hold := (hnowrap k (by omega)).2
      have hiff := not_larger_iff_le hend (hkmedian ▸ hold) hnew.2
      dsimp only
      split
      · rename_i hbeyond
        rw [hbeyond] at hiff
        have hlt : numerical_median data n₁ < numerical_median data n₀ := by
          simpa using hiff
        exact (Nat.min_eq_right (Nat.le_of_lt hlt)).symm
      · rename_i hbeyond
        exact (Nat.min_eq_left (hiff.mp (Bool.eq_false_iff.mpr hbeyond))).symm

/-- A majority of the group has reached an offset exactly if it is not above the median. -/
theorem majority_reached_iff {c : Nat} (hsize : 0 < n) (hend : data.log.end_ ≠ data.log.len)
    (hends : ∀ i < n, valid_offset data i ≤ data.log.end_) (hc : c ≤ data.log.end_) :
    n / 2 + 1 ≤ reached data n c ↔ c ≤ numerical_median data n := by
  have hsplit := List.length_eq_countP_add_countP (fun i => decide (valid_offset data i < c)) (l := List.range n)
  have hbelow := below_le_iff data (show (n - 1) / 2 < n by omega) c
  rw [reached_eq_above hend hc hends, numerical_median, ← hbelow]
  simp only [List.length_range, decide_eq_true_eq, not_lt] at hsplit
  omega

/-- In a transitional configuration without a wrap between the commit and the end offset: the new commit
    offset is reached by majorities of both groups exactly when the second pass finds enough servers of
    the new group beyond the median of the old one, or this is not above the median of the new group. -/
theorem transit_commit_reached_by_majorities_iff {n₀ n₁ : Nat} (hn₀ : n₀ = data.cid.size_0.toNat)
    (hn₁ : n₁ = data.cid.size_1.toNat) (hsize : 0 < n₁) (hstate : data.cid.state = CID_TRANSIT)
    (hnowrap : ∀ i < max n₀ n₁,
      data.log.commit ≤ valid_offset data i ∧ valid_offset data i ≤ data.log.end_)
    (hmoves : (update_commit data).log.commit ≠ data.log.commit) :
    (n₀ / 2 + 1 ≤ reached data n₀ (update_commit data).log.commit ∧
      n₁ / 2 + 1 ≤ reached data n₁ (update_commit data).log.commit) ↔
      n₁ / 2 ≤ ((List.range n₁).filter (counts_as_larger data (numerical_median data n₀))).length ∨
        numerical_median data n₀ ≤ numerical_median data n₁ := by
  obtain ⟨hcommit, hlarger, hend⟩ := update_commit_moves hmoves
  obtain ⟨hsize₀, hmin⟩ := min_offset_of_transit hn₀ hn₁ hsize hstate hnowrap hend hlarger
  have hends₀ : ∀ i < n₀, valid_offset data i ≤ data.log.end_ := fun i hi => (hnowrap i (by omega)).2
  have hends₁ : ∀ i < n₁, valid_offset data i ≤ data.log.end_ := fun i hi => (hnowrap i (by omega)).2
  obtain ⟨j, hj, hjmedian⟩ := numerical_median_mem data hsize₀
  have hmedian : numerical_median data n₀ ≤ data.log.end_ := hjmedian ▸ hends₀ j hj
  rw [hcommit, hmin]
  split
  · rename_i hbreak
    rw [majority_reached_iff hsize₀ hend hends₀ hmedian, majority_reached_iff hsize hend hends₁ hmedian]
    constructor
    · exact fun h => .inr h.2
    · exact fun h => ⟨Nat.le_refl _, h.resolve_left (by omega)⟩
  · rename_i hcount
    have hmin' : min (numerical_median data n₀) (numerical_median data n₁) ≤ data.log.end_ :=
      Nat.le_trans (Nat.min_le_left _ _) hmedian
    rw [majority_reached_iff hsize₀ hend hends₀ hmin', majority_reached_iff hsize hend hends₁ hmin']
    exact iff_of_true ⟨Nat.min_le_left _ _, Nat.min_le_right _ _⟩ (.inl (Nat.le_of_not_lt hcount))

/-- The group grows from three to four servers. -/
def transit_cid : dare_cid_t := ⟨0, 3, 4, CID_TRANSIT, 15⟩

theorem both_majorities_reached :
    let data := leading transit_cid 1000 10 100 [100, 60, 10, 60]
    (update_commit data).log.commit = 60 ∧
      3 / 2 + 1 ≤ reached data 3 (update_commit data).log.commit ∧
      4 / 2 + 1 ≤ reached data 4 (update_commit data).log.commit := by
  intro data
  exact ⟨by decide, (@transit_commit_reached_by_majorities_iff data 3 4 rfl rfl (by decide) rfl
    (by decide) (by decide)).mpr (.inr (by decide))⟩

/-- The leader and one follower are a majority of the old group only: the second pass finds nobody beyond
    their offset, and leaves it as it is. -/
theorem new_group_outvoted :
    let data := leading transit_cid 1000 10 100 [100, 100, 10, 10]
    (update_commit data).log.commit = 100 ∧ reached data 4 100 = 2 := by
  decide

end commit
end dare.rc
