import ReliableSocket.Dare.Config
import ReliableSocket.Dare.Rc.Completion

open dare.ibv run

namespace dare.rc

inductive wait_rc_t where
  | RC_SUCCESS
  | RC_INSUCCESS
  | RC_ERROR
deriving DecidableEq, Repr

/-- The sends of a round and the two 8-bit counters of `wait_for_majority`. -/
structure wait_t where
  sends : sends_t
  posted_send_count : Nat
  success_count : Nat

/-- What a call of `ibv_poll_cq` returns, if it does not fail. -/
abbrev poll_t := Option (List ibv_wc)

section loops

variable (qp : qp_id)

/-- The number of posted sends, summed up in 8 bits. -/
def count_posted (posted_sends : Nat → Int) (size : Nat) : Nat :=
  (((List.range size).map fun i => if posted_sends i < 0 then 0 else (posted_sends i).toNat).sum) % 256

def count_successes (posted_sends : Nat → Int) (size : Nat) : Nat :=
  (List.range size).countP fun i => decide (posted_sends i = 0)

/-- The successes counted anew for a size. -/
def recount (size : Nat) (w : wait_t) : wait_t :=
  { w with success_count := count_successes w.sends.posted_sends size }

/-- One round of the loop over a batch, where `rc` is the status of its first completion. -/
def wait_completion (size : Nat) (rc : wc_rc_t) (w : wait_t) (wc : ibv_wc) : wait_t :=
  let conn := wc.wr_id.conn
  let sends := wait_for_majority_completion qp rc w.sends wc
  let succeeds := (w.sends.conns conn).rc_connected ∧ rc = .WC_SUCCESS ∧ ¬ w.sends.ssn > wc.wr_id.ssn ∧
    sends.posted_sends conn = 0 ∧ conn < size
  { sends
    posted_send_count :=
      if wc.wr_id.ssn = w.sends.ssn then (w.posted_send_count + 255) % 256 else w.posted_send_count
    success_count := if succeeds then (w.success_count + 1) % 256 else w.success_count }

def wait_batch (size : Nat) (w : wait_t) (batch : List ibv_wc) : wait_t :=
  run.steps (wait_completion qp size (first_rc batch)) w (counted batch)

/-- How the waiting for a majority of one size ends, with the polls that were not needed. -/
inductive waited_t where
  | waiting
  | failed (sends : sends_t) (rest : List poll_t)
  | done (w : wait_t) (rest : List poll_t)

/-- The condition of the inner loop. -/
def waits (size : Nat) (w : wait_t) : Prop := w.success_count ≤ size / 2 ∧ w.posted_send_count ≠ 0

instance (size : Nat) (w : wait_t) : Decidable (waits size w) := inferInstanceAs (Decidable (_ ∧ _))

def wait_for_size (size : Nat) : wait_t → List poll_t → waited_t
  | w, [] => if waits size w then .waiting else .done w []
  | w, poll :: rest =>
    if waits size w then
      match poll with
      | none => .failed w.sends rest
      | some batch => wait_for_size size (wait_batch qp size w batch) rest
    else .done w (poll :: rest)

def wait_result (size : Nat) (w : wait_t) : wait_rc_t :=
  if w.success_count > size / 2 then .RC_SUCCESS else .RC_INSUCCESS

def start_wait (cid : dare_cid_t) (s : sends_t) : wait_t :=
  recount cid.size_0.toNat
    { sends := s, posted_send_count := count_posted s.posted_sends (get_group_size cid), success_count := 0 }

/-- The result with the sends and the polls that were not needed; nothing if the call still waits after all
    of the polls. -/
def wait_for_majority (cid : dare_cid_t) (s : sends_t) (polls : List poll_t) :
    Option (wait_rc_t × sends_t × List poll_t) :=
  let size := cid.size_0.toNat
  match wait_for_size qp size (start_wait cid s) polls with
  | .waiting => none
  | .failed s rest => some (.RC_ERROR, s, rest)
  | .done w rest =>
    if cid.state = CID_STABLE then some (wait_result size w, w.sends, rest)
    else
      -- the result for the first size is not looked at
      let size := cid.size_1.toNat
      match wait_for_size qp size (recount size w) rest with
      | .waiting => none
      | .failed s rest => some (.RC_ERROR, s, rest)
      | .done w rest => some (wait_result size w, w.sends, rest)

end loops

/-- The sends as the callers post them: none to servers that are off or not connected, and the own slot is
    zero, or -1 for a read of the own vote. Slots above the group size stay zero. -/
def post_sends (cid : dare_cid_t) (idx : Nat) (own : Int) (connected : Nat → Bool) (i : Nat) : Int :=
  if i < get_group_size cid then
    if i = idx then own
    else if !CID_IS_SERVER_ON cid i then -1
    else if !connected i then -1
    else 1
  else 0

/-- The array that `wait_for_majority` is called with: some of the sends may have completed while others were
    posted. -/
structure Posted (cid : dare_cid_t) (posted_sends : Nat → Int) : Prop where
  slot : ∀ i, posted_sends i = -1 ∨ posted_sends i = 0 ∨ posted_sends i = 1
  above : ∀ i, get_group_size cid ≤ i → posted_sends i = 0

theorem post_sends_posted (cid : dare_cid_t) (idx : Nat) {own : Int} (hown : own = 0 ∨ own = -1)
    (connected : Nat → Bool) : Posted cid (post_sends cid idx own connected) where
  slot i := by
    unfold post_sends
    split_ifs <;> omega
  above i hi := by rw [post_sends, if_neg (Nat.not_lt.mpr hi)]

/-- The completions of all polls. -/
def completions (polls : List poll_t) : List ibv_wc := polls.flatMap fun poll => poll.getD []

/-- The servers that the completions of the round `ssn` belong to. -/
def round_conns (ssn : Nat) (wcs : List ibv_wc) : List Nat :=
  (wcs.filter fun wc => decide (wc.wr_id.ssn = ssn)).map fun wc => wc.wr_id.conn

/-- The completions of this round among these belong to sends that have not completed, each to another. -/
structure Fresh (s : sends_t) (wcs : List ibv_wc) : Prop where
  posted : ∀ conn ∈ round_conns s.ssn wcs, s.posted_sends conn = 1
  once : (round_conns s.ssn wcs).Nodup

/-- The polls during the wait return completions of earlier rounds and at most one for each send of this
    round that has not completed. -/
structure Arriving (s : sends_t) (polls : List poll_t) : Prop where
  polled : Polled s (completions polls)
  fresh : Fresh s (completions polls)

/-- No completion of this round that did not succeed comes in a poll whose first completion succeeded. -/
def StatusKept (ssn : Nat) (polls : List poll_t) : Prop :=
  ∀ batch, some batch ∈ polls → first_rc batch = .WC_SUCCESS →
    ∀ wc ∈ batch, wc.wr_id.ssn = ssn → handle_work_completion wc = .WC_SUCCESS

/-- The operation was completed on the server, or it is the caller's own slot. -/
def Completed (cid : dare_cid_t) (s : sends_t) (polls : List poll_t) (i : Nat) : Prop :=
  i < get_group_size cid ∧ s.posted_sends i = 0 ∨
    ∃ wc ∈ completions polls, wc.wr_id.ssn = s.ssn ∧ wc.wr_id.conn = i ∧ handle_work_completion wc = .WC_SUCCESS

instance (cid : dare_cid_t) (s : sends_t) (polls : List poll_t) (i : Nat) : Decidable (Completed cid s polls i) :=
  inferInstanceAs (Decidable (_ ∨ _))

/-- More than half of the first `size` servers. -/
def Majority (size : Nat) (p : Nat → Bool) : Prop := size / 2 < (List.range size).countP p

instance (size : Nat) (p : Nat → Bool) : Decidable (Majority size p) := inferInstanceAs (Decidable (_ < _))

/-- The majorities that the configuration asks for. -/
def Quorum (cid : dare_cid_t) (p : Nat → Bool) : Prop :=
  Majority cid.size_0.toNat p ∧ (cid.state = CID_TRANSIT → Majority cid.size_1.toNat p)

/-- A success with exactly these polls means that the operation has a quorum. -/
def SuccessMeansQuorum (qp : qp_id) (cid : dare_cid_t) (s : sends_t) (polls : List poll_t) : Prop :=
  ∀ s', wait_for_majority qp cid s polls = some (.RC_SUCCESS, s', []) →
    Quorum cid fun i => decide (Completed cid s polls i)

/-- Whichever of the posted sends complete, a majority of the zero slots of the second size holds one of the
    first size. -/
def SizesNested (cid : dare_cid_t) (posted_sends : Nat → Int) : Prop :=
  ∀ completed : Nat → Bool, (∀ i, posted_sends i = 0 → completed i = true) →
    (∀ i, completed i = true → posted_sends i = 0 ∨ posted_sends i = 1) →
    Majority cid.size_1.toNat completed → Majority cid.size_0.toNat completed

section invariant

variable {qp : qp_id} {size : Nat} {rc : wc_rc_t} {s : sends_t} {w : wait_t} {wc : ibv_wc}
  {past : List ibv_wc}

theorem Polled.mono {wcs more : List ibv_wc} (hpolled : Polled s more) (hsub : ∀ wc ∈ wcs, wc ∈ more) :
    Polled s wcs :=
  ⟨fun wc hwc => hpolled.connected wc (hsub wc hwc), fun wc hwc => hpolled.ssn_le wc (hsub wc hwc)⟩

theorem wait_for_majority_keeps (qp : qp_id) (rc : wc_rc_t)
    (hconn : (s.conns wc.wr_id.conn).rc_connected = true)
    (hssn : wc.wr_id.ssn ≤ s.ssn) :
    (wait_for_majority_completion qp rc s wc).ssn = s.ssn ∧
      (∀ conn, ((wait_for_majority_completion qp rc s wc).conns conn).rc_connected =
        (s.conns conn).rc_connected) ∧
      (wait_for_majority_completion qp rc s wc).posted_sends =
        if rc = .WC_SUCCESS ∧ wc.wr_id.ssn = s.ssn then
          Function.update s.posted_sends wc.wr_id.conn (s.posted_sends wc.wr_id.conn - 1)
        else s.posted_sends := by
  have hnoted := (note_completion_eq qp wc.wr_id (s.conns wc.wr_id.conn)).1
  rw [wait_for_majority_eq_one hssn, wait_for_one_of_connected hconn]
  cases rc with
  | WC_SUCCESS =>
    by_cases hround : wc.wr_id.ssn = s.ssn
    · rw [if_pos ⟨rfl, hround⟩]
      simp only [if_pos hround]
      exact ⟨rfl, rc_connected_update hnoted, rfl⟩
    · rw [if_neg fun h => hround h.2]
      simp only [if_neg hround]
      exact ⟨rfl, rc_connected_update hnoted, rfl⟩
  | WC_FAILURE | WC_SOFTWARE_BUG | WC_ERROR =>
    rw [if_neg (by simp)]
    exact ⟨rfl, rc_connected_update hnoted, rfl⟩

/-- Where the wait for a size stands after the completions `past`: a slot became zero if its send succeeded,
    and the successes are the zero slots. -/
structure Waiting (size : Nat) (s : sends_t) (past : List ibv_wc) (w : wait_t) : Prop where
  ssn : w.sends.ssn = s.ssn
  connected : ∀ conn, (w.sends.conns conn).rc_connected = (s.conns conn).rc_connected
  count : w.success_count = count_successes w.sends.posted_sends size
  slot : ∀ i, w.sends.posted_sends i = s.posted_sends i ∨
    s.posted_sends i = 1 ∧ w.sends.posted_sends i = 0 ∧
      ∃ wc ∈ past, wc.wr_id.ssn = s.ssn ∧ wc.wr_id.conn = i ∧ handle_work_completion wc = .WC_SUCCESS

theorem Waiting.recount (hw : Waiting size s past w) (size' : Nat) : Waiting size' s past (recount size' w) :=
  ⟨hw.ssn, hw.connected, rfl, hw.slot⟩

theorem count_successes_le (posted_sends : Nat → Int) (size : Nat) : count_successes posted_sends size ≤ size := by
  have hle := List.countP_le_length (p := fun i => decide (posted_sends i = 0)) (l := List.range size)
  rwa [List.length_range] at hle

/-- A slot that becomes zero counts if it belongs to the size. -/
theorem count_successes_update (size : Nat) {posted_sends : Nat → Int} {conn : Nat} (hone : posted_sends conn = 1) :
    count_successes (Function.update posted_sends conn 0) size =
      if conn < size then count_successes posted_sends size + 1 else count_successes posted_sends size := by
  induction size with
  | zero => rfl
  | succ n ih =>
    rw [count_successes, count_successes, List.range_succ, List.countP_append, List.countP_append,
      ← count_successes, ← count_successes, ih]
    by_cases hlast : conn = n
    · subst hlast
      simp [hone]
    · have hne : n ≠ conn := fun h => hlast h.symm
      have hiff : conn < n + 1 ↔ conn < n := by omega
      simp only [List.countP_singleton, Function.update_of_ne hne, hiff]
      split <;> omega

theorem Waiting.slot_of_fresh (hw : Waiting size s past w) {conn : Nat} (hone : s.posted_sends conn = 1)
    (hfresh : ∀ old ∈ past, old.wr_id.ssn = s.ssn → old.wr_id.conn ≠ conn) :
    w.sends.posted_sends conn = 1 := by
  obtain hsame | ⟨-, -, old, hmem, hssn, hconn, -⟩ := hw.slot conn
  · rw [hsame, hone]
  · exact absurd hconn (hfresh old hmem hssn)

theorem Waiting.step (hw : Waiting size s past w) (qp : qp_id) (hsize : size < 256)
    (hconn : (s.conns wc.wr_id.conn).rc_connected = true) (hle : wc.wr_id.ssn ≤ s.ssn)
    (hkept : rc = .WC_SUCCESS → wc.wr_id.ssn = s.ssn → handle_work_completion wc = .WC_SUCCESS)
    (hfresh : wc.wr_id.ssn = s.ssn → s.posted_sends wc.wr_id.conn = 1 ∧
      ∀ old ∈ past, old.wr_id.ssn = s.ssn → old.wr_id.conn ≠ wc.wr_id.conn) :
    Waiting size s (past ++ [wc]) (wait_completion qp size rc w wc) := by
  have hconn' : (w.sends.conns wc.wr_id.conn).rc_connected = true := (hw.connected _).trans hconn
  obtain ⟨hssn, hconns, hposted⟩ := wait_for_majority_keeps qp rc hconn' (hw.ssn ▸ hle)
  have hold {i : Nat} (hslot : ∃ old ∈ past, old.wr_id.ssn = s.ssn ∧ old.wr_id.conn = i ∧
      handle_work_completion old = .WC_SUCCESS) : ∃ old ∈ past ++ [wc], old.wr_id.ssn = s.ssn ∧
      old.wr_id.conn = i ∧ handle_work_completion old = .WC_SUCCESS := by
    obtain ⟨old, hmem, hrest⟩ := hslot
    exact ⟨old, List.mem_append_left _ hmem, hrest⟩
  rw [hw.ssn] at hposted
  by_cases hcounts : rc = .WC_SUCCESS ∧ wc.wr_id.ssn = s.ssn
  · obtain ⟨rfl, hround⟩ := hcounts
    obtain ⟨hone, hnew⟩ := hfresh hround
    have hslot := hw.slot_of_fresh hone hnew
    rw [if_pos ⟨rfl, hround⟩, hslot] at hposted
    have hcount := count_successes_update size hslot
    refine ⟨hssn.trans hw.ssn, fun conn => (hconns conn).trans (hw.connected conn), ?_, fun i => ?_⟩
    · dsimp only [wait_completion]
      rw [hposted, Int.sub_self, Function.update_self, hw.ssn, hround, hcount, hw.count]
      have hle := count_successes_le (Function.update w.sends.posted_sends wc.wr_id.conn 0) size
      rw [hcount] at hle
      by_cases hin : wc.wr_id.conn < size
      · rw [if_pos hin] at hle ⊢
        rw [if_pos ⟨hconn', rfl, by omega, rfl, hin⟩]
        omega
      · rw [if_neg hin, if_neg fun h => hin h.2.2.2.2]
    · dsimp only [wait_completion]
      rw [hposted, Int.sub_self]
      by_cases hi : i = wc.wr_id.conn
      · subst hi
        rw [Function.update_self]
        exact .inr ⟨hone, rfl, wc, List.mem_append_right _ (List.mem_singleton_self wc), hround, rfl,
          hkept rfl hround⟩
      · rw [Function.update_of_ne hi]
        exact (hw.slot i).imp_right fun h => ⟨h.1, h.2.1, hold h.2.2⟩
  · rw [if_neg hcounts] at hposted
    refine ⟨hssn.trans hw.ssn, fun conn => (hconns conn).trans (hw.connected conn), ?_, fun i => ?_⟩
    · dsimp only [wait_completion]
      have hnot : ¬ (rc = .WC_SUCCESS ∧ ¬ w.sends.ssn > wc.wr_id.ssn) := by
        rintro ⟨hrc, hnew⟩
        rw [hw.ssn] at hnew
        exact hcounts ⟨hrc, by omega⟩
      rw [if_neg fun h => hnot ⟨h.2.1, h.2.2.1⟩, hposted, hw.count]
    · dsimp only [wait_completion]
      rw [hposted]
      exact (hw.slot i).imp_right fun h => ⟨h.1, h.2.1, hold h.2.2⟩

theorem mem_round_conns {ssn conn : Nat} {wcs : List ibv_wc} :
    conn ∈ round_conns ssn wcs ↔ ∃ wc ∈ wcs, wc.wr_id.ssn = ssn ∧ wc.wr_id.conn = conn := by
  simp [round_conns, and_assoc]

theorem round_conns_append (ssn : Nat) (wcs more : List ibv_wc) :
    round_conns ssn (wcs ++ more) = round_conns ssn wcs ++ round_conns ssn more := by
  rw [round_conns, List.filter_append, List.map_append]
  rfl

theorem Fresh.last (hfresh : Fresh s (past ++ [wc])) (hround : wc.wr_id.ssn = s.ssn) :
    s.posted_sends wc.wr_id.conn = 1 ∧
      ∀ old ∈ past, old.wr_id.ssn = s.ssn → old.wr_id.conn ≠ wc.wr_id.conn := by
  have hlast : wc.wr_id.conn ∈ round_conns s.ssn [wc] := mem_round_conns.mpr ⟨wc, by simp, hround, rfl⟩
  refine ⟨hfresh.posted _ ?_, fun old hmem hold heq => ?_⟩
  · rw [round_conns_append]
    exact List.mem_append_right _ hlast
  · have honce := hfresh.once
    rw [round_conns_append] at honce
    exact (List.nodup_append.mp honce).2.2 _ (mem_round_conns.mpr ⟨old, hmem, hold, heq⟩) _ hlast rfl

theorem Fresh.sublist {wcs more : List ibv_wc} (hfresh : Fresh s more) (hsub : wcs.Sublist more) :
    Fresh s wcs := by
  have hconns : (round_conns s.ssn wcs).Sublist (round_conns s.ssn more) := (hsub.filter _).map _
  exact ⟨fun conn hmem => hfresh.posted conn (hconns.subset hmem), hconns.nodup hfresh.once⟩

/-- The same after a batch whose completions count as successes only if those of this round are. -/
theorem Waiting.batch (hw : Waiting size s past w) (hsize : size < 256) {batch : List ibv_wc}
    (hpolled : Polled s batch) (hfresh : Fresh s (past ++ batch))
    (hkept : rc = .WC_SUCCESS → ∀ wc ∈ batch, wc.wr_id.ssn = s.ssn → handle_work_completion wc = .WC_SUCCESS) :
    Waiting size s (past ++ batch) (run.steps (wait_completion qp size rc) w batch) := by
  induction batch generalizing past w with
  | nil =>
    rw [List.append_nil]
    exact hw
  | cons wc rest ih =>
    have hsplit : past ++ wc :: rest = past ++ [wc] ++ rest := List.append_cons past wc rest
    rw [hsplit] at hfresh ⊢
    have hnext := hw.step qp hsize (hpolled.connected wc List.mem_cons_self)
      (hpolled.ssn_le wc List.mem_cons_self) (fun hrc => hkept hrc wc List.mem_cons_self)
      (hfresh.sublist (List.sublist_append_left ..)).last
    exact ih hnext (hpolled.mono fun c hc => List.mem_cons_of_mem wc hc) hfresh
      fun hrc c hc => hkept hrc c (List.mem_cons_of_mem wc hc)

/-- The completions that the loops go over. -/
def handled (polls : List poll_t) : List ibv_wc := polls.flatMap fun poll => counted (poll.getD [])

theorem handled_append (polls more : List poll_t) : handled (polls ++ more) = handled polls ++ handled more :=
  List.flatMap_append

theorem completions_append (polls more : List poll_t) :
    completions (polls ++ more) = completions polls ++ completions more := List.flatMap_append

theorem handled_sublist (polls : List poll_t) : (handled polls).Sublist (completions polls) := by
  induction polls with
  | nil => exact List.Sublist.slnil
  | cons poll rest ih => exact (List.take_sublist _ (poll.getD [])).append ih

theorem Waiting.wait_for_size {polls rest : List poll_t} {w' : wait_t} (hw : Waiting size s past w)
    (hsize : size < 256) (hpolled : Polled s (completions polls)) (hfresh : Fresh s (past ++ handled polls))
    (hkept : StatusKept s.ssn polls) (hdone : wait_for_size qp size w polls = .done w' rest) :
    ∃ used, polls = used ++ rest ∧ Waiting size s (past ++ handled used) w' ∧ ¬ waits size w' := by
  induction polls generalizing past w with
  | nil =>
    rw [rc.wait_for_size] at hdone
    split at hdone
    · cases hdone
    · cases hdone
      exact ⟨[], rfl, by rwa [handled, List.flatMap_nil, List.append_nil], by assumption⟩
  | cons poll more ih =>
    rw [rc.wait_for_size.eq_def] at hdone
    dsimp only at hdone
    split at hdone
    · cases poll with
      | none => cases hdone
      | some batch =>
        have hmem (wc : ibv_wc) (hwc : wc ∈ counted batch) : wc ∈ batch := List.mem_of_mem_take hwc
        have hhandled : handled (some batch :: more) = counted batch ++ handled more := rfl
        rw [hhandled, ← List.append_assoc] at hfresh
        have hall : completions (some batch :: more) = batch ++ completions more := rfl
        rw [hall] at hpolled
        have hnext : Waiting size s (past ++ counted batch) (wait_batch qp size w batch) :=
          hw.batch hsize (hpolled.mono fun wc hwc => List.mem_append_left _ (hmem wc hwc))
            (hfresh.sublist (List.sublist_append_left ..))
            fun hrc wc hwc => hkept batch List.mem_cons_self hrc wc (hmem wc hwc)
        obtain ⟨used, hsplit, hend⟩ := ih hnext (hpolled.mono fun wc hwc => List.mem_append_right _ hwc)
          hfresh (fun b hb => hkept b (List.mem_cons_of_mem _ hb)) hdone
        refine ⟨some batch :: used, by rw [hsplit]; rfl, ?_⟩
        have hused : handled (some batch :: used) = counted batch ++ handled used := rfl
        rw [hused, ← List.append_assoc]
        exact hend
    · cases hdone
      exact ⟨[], rfl, by rwa [handled, List.flatMap_nil, List.append_nil], by assumption⟩

theorem wait_for_size_of_not_waits (qp : qp_id) (hw : ¬ waits size w) (polls : List poll_t) :
    wait_for_size qp size w polls = .done w polls := by
  cases polls with
  | nil => rw [rc.wait_for_size, if_neg hw]
  | cons poll rest =>
    rw [rc.wait_for_size.eq_def]
    exact if_neg hw

end invariant

section sufficiency

variable {qp : qp_id} {cid : dare_cid_t} {size : Nat} {s : sends_t} {w : wait_t} {past : List ibv_wc}
  {polls : List poll_t}

theorem size_0_le_group_size (cid : dare_cid_t) : cid.size_0.toNat ≤ get_group_size cid := by
  rw [get_group_size]
  split
  · exact Nat.le_refl _
  · split
    · exact Nat.le_of_lt (UInt8.lt_iff_toNat_lt.mp (by assumption))
    · exact Nat.le_refl _

theorem size_1_le_group_size (htransit : cid.state = CID_TRANSIT) : cid.size_1.toNat ≤ get_group_size cid := by
  rw [get_group_size, if_neg (by simp [htransit])]
  split
  · exact Nat.le_refl _
  · exact UInt8.le_iff_toNat_le.mp (UInt8.not_lt.mp (by assumption))

theorem Waiting.completed (hw : Waiting size s past w) (hpast : past.Sublist (completions polls)) {i : Nat}
    (hi : i < get_group_size cid) (hzero : w.sends.posted_sends i = 0) : Completed cid s polls i := by
  obtain hsame | ⟨-, -, wc, hmem, hrest⟩ := hw.slot i
  · exact .inl ⟨hi, hsame ▸ hzero⟩
  · exact .inr ⟨wc, hpast.subset hmem, hrest⟩

/-- The successes counted for a size without added servers are completed operations. -/
theorem Waiting.majority (hw : Waiting size s past w) (hpast : past.Sublist (completions polls))
    (hsize : size ≤ get_group_size cid) (hcount : size / 2 < w.success_count) :
    Majority size fun i => decide (Completed cid s polls i) := by
  rw [hw.count] at hcount
  refine Nat.lt_of_lt_of_le hcount (List.countP_mono_left fun i hi hzero => ?_)
  exact decide_eq_true
    (hw.completed hpast (Nat.lt_of_lt_of_le (List.mem_range.mp hi) hsize) (of_decide_eq_true hzero))

/-- Without a majority of the first size the sends that completed have none of the second. -/
theorem Waiting.not_majority (hw : Waiting size s past w) (hnested : SizesNested cid s.posted_sends)
    (hfirst : ¬ cid.size_0.toNat / 2 < count_successes w.sends.posted_sends cid.size_0.toNat) :
    ¬ cid.size_1.toNat / 2 < count_successes w.sends.posted_sends cid.size_1.toNat := by
  intro hsecond
  refine hfirst (hnested (fun i => decide (w.sends.posted_sends i = 0)) (fun i hzero => ?_) (fun i hzero => ?_)
    hsecond)
  · obtain hsame | ⟨hone, -⟩ := hw.slot i
    · exact decide_eq_true (hsame.trans hzero)
    · rw [hzero] at hone
      exact absurd hone (by decide)
  · obtain hsame | ⟨hone, -⟩ := hw.slot i
    · exact .inl (hsame ▸ of_decide_eq_true hzero)
    · exact .inr hone

theorem lt_of_wait_result (hsuccess : wait_result size w = .RC_SUCCESS) : size / 2 < w.success_count := by
  rw [wait_result] at hsuccess
  split at hsuccess
  · assumption
  · cases hsuccess

/-- After the wait for the first size the slots show what was handled so far. -/
theorem waited_first {rest : List poll_t} (harriving : Arriving s polls) (hkept : StatusKept s.ssn polls)
    (hdone : wait_for_size qp cid.size_0.toNat (start_wait cid s) polls = .done w rest) :
    ∃ used, polls = used ++ rest ∧ Waiting cid.size_0.toNat s (handled used) w ∧
      (handled used).Sublist (completions polls) ∧ ¬ waits cid.size_0.toNat w := by
  have hstart : Waiting cid.size_0.toNat s [] (start_wait cid s) :=
    ⟨rfl, fun _ => rfl, rfl, fun _ => .inl rfl⟩
  obtain ⟨used, rfl, hw, hstop⟩ := hstart.wait_for_size cid.size_0.toNat_lt harriving.polled
    (harriving.fresh.sublist (handled_sublist polls)) hkept hdone
  refine ⟨used, rfl, hw, (handled_sublist used).trans ?_, hstop⟩
  rw [completions_append]
  exact List.sublist_append_left ..

theorem quorum_of_success (harriving : Arriving s polls) (hkept : StatusKept s.ssn polls)
    (hnested : cid.state ≠ CID_STABLE → SizesNested cid s.posted_sends) : SuccessMeansQuorum qp cid s polls := by
  intro s' hresult
  rw [wait_for_majority] at hresult
  dsimp only at hresult
  split at hresult
  · cases hresult
  · cases hresult
  rename_i w rest hfirst
  obtain ⟨used, rfl, hw, hused, hstop⟩ := waited_first harriving hkept hfirst
  split at hresult
  · -- one size decides
    simp only [Option.some.injEq, Prod.mk.injEq] at hresult
    refine ⟨hw.majority hused (size_0_le_group_size cid) (lt_of_wait_result hresult.1), fun htransit => ?_⟩
    simp_all [CID_TRANSIT, CID_STABLE]
  · rename_i hunstable
    split at hresult
    · cases hresult
    · cases hresult
    rename_i w' rest' hsecond
    simp only [Option.some.injEq, Prod.mk.injEq] at hresult
    have hcount := lt_of_wait_result hresult.1
    by_cases hmajority : cid.size_0.toNat / 2 < w.success_count
    · refine ⟨hw.majority hused (size_0_le_group_size cid) hmajority, fun htransit => ?_⟩
      have hfresh := harriving.fresh.sublist (handled_sublist (used ++ rest))
      rw [handled_append] at hfresh
      have hpolled := harriving.polled
      rw [completions_append] at hpolled
      obtain ⟨used', hsplit', hw', -⟩ := (hw.recount cid.size_1.toNat).wait_for_size cid.size_1.toNat_lt
        (hpolled.mono fun wc hwc => List.mem_append_right _ hwc) hfresh
        (fun b hb => hkept b (List.mem_append_right _ hb)) hsecond
      rw [hresult.2.2, List.append_nil] at hsplit'
      rw [← hsplit', ← handled_append] at hw'
      exact hw'.majority (handled_sublist _) (size_1_le_group_size htransit) hcount
    · -- nothing is left to wait for, so the second count is made on the same slots
      have hnone : w.posted_send_count = 0 := by
        by_contra hleft
        exact hstop ⟨Nat.le_of_not_lt hmajority, hleft⟩
      have hnot : ¬ waits cid.size_1.toNat (recount cid.size_1.toNat w) := fun h => h.2 hnone
      rw [wait_for_size_of_not_waits qp hnot] at hsecond
      cases hsecond
      rw [hw.count] at hmajority
      exact absurd hcount (hw.not_majority (hnested hunstable) hmajority)

end sufficiency

section necessity

variable {qp : qp_id} {cid : dare_cid_t} {size : Nat} {w : wait_t} {i : Nat} {left : List Nat}
  {completed : Nat → Bool} {posted_sends : Nat → Int}

/-- A round in which all servers are connected. -/
def round_of (posted_sends : Nat → Int) : sends_t := { probe 1 with posted_sends }

/-- The completion of the send to a server in this round. -/
def completion_of (completed : Nat → Bool) (i : Nat) : ibv_wc where
  wr_id := { ssn := 1, wa := false, tag := false, conn := i }
  status := if completed i then .IBV_WC_SUCCESS else .IBV_WC_RETRY_EXC_ERR

/-- The completions come one by one. -/
def one_by_one (completed : Nat → Bool) (left : List Nat) : List poll_t :=
  left.map fun i => some [completion_of completed i]

/-- The slots when all of the sends that are left have completed, or failed. -/
def slots_after (completed : Nat → Bool) (left : List Nat) (posted_sends : Nat → Int) (i : Nat) : Int :=
  if i ∈ left ∧ completed i = true then 0 else posted_sends i

theorem slots_after_cons (hnew : i ∉ left) :
    slots_after completed (i :: left) posted_sends =
      slots_after completed left (if completed i then Function.update posted_sends i 0 else posted_sends) := by
  funext j
  by_cases hj : j = i
  · subst hj
    by_cases hdone : completed j = true <;> simp [slots_after, hnew, hdone]
  · by_cases hdone : completed i = true <;> simp [slots_after, hj, hdone]

theorem count_successes_le_after :
    count_successes posted_sends size ≤ count_successes (slots_after completed left posted_sends) size := by
  refine List.countP_mono_left fun i _ hzero => ?_
  rw [decide_eq_true_eq] at hzero ⊢
  rw [slots_after, hzero, ite_self]

/-- The wait with these sends left. -/
structure Left (size : Nat) (left : List Nat) (w : wait_t) : Prop where
  ssn : w.sends.ssn = 1
  connected : ∀ conn, (w.sends.conns conn).rc_connected = true
  count : w.success_count = count_successes w.sends.posted_sends size
  posted : ∀ i ∈ left, w.sends.posted_sends i = 1
  left : w.posted_send_count = left.length

theorem handle_completion_of (completed : Nat → Bool) (i : Nat) :
    handle_work_completion (completion_of completed i) = if completed i then .WC_SUCCESS else .WC_FAILURE := by
  by_cases hdone : completed i = true <;> simp [completion_of, handle_work_completion, hdone]

theorem Left.batch (hw : Left size (i :: left) w) (qp : qp_id) (completed : Nat → Bool) (hnew : i ∉ left)
    (hsize : size < 256) (hlength : (i :: left).length < 256) :
    Left size left (wait_batch qp size w [completion_of completed i]) ∧
      (wait_batch qp size w [completion_of completed i]).sends.posted_sends =
        if completed i then Function.update w.sends.posted_sends i 0 else w.sends.posted_sends := by
  have hone := hw.posted i List.mem_cons_self
  have hbatch : wait_batch qp size w [completion_of completed i] =
      wait_completion qp size (handle_work_completion (completion_of completed i)) w (completion_of completed i) :=
    rfl
  have hround : (completion_of completed i).wr_id.ssn = w.sends.ssn := hw.ssn.symm
  obtain ⟨hssn, hconns, hposted⟩ := wait_for_majority_keeps qp
    (handle_work_completion (completion_of completed i)) (hw.connected i) (Nat.le_of_eq hround)
  have hstart : Waiting size w.sends [] w := ⟨rfl, fun _ => rfl, hw.count, fun _ => .inl rfl⟩
  have hstep := hstart.step qp hsize (hw.connected i) (Nat.le_of_eq hround) (fun hrc _ => hrc)
    fun _ => ⟨hone, fun _ hmem => absurd hmem List.not_mem_nil⟩
  rw [hbatch]
  have hslots : (wait_completion qp size (handle_work_completion (completion_of completed i)) w
      (completion_of completed i)).sends.posted_sends =
        if completed i then Function.update w.sends.posted_sends i 0 else w.sends.posted_sends := by
    refine hposted.trans ?_
    have hconn : (completion_of completed i).wr_id.conn = i := rfl
    rw [handle_completion_of, hconn, hone, Int.sub_self]
    by_cases hdone : completed i = true
    · rw [if_pos ⟨if_pos hdone, hround⟩, if_pos hdone]
    · rw [if_neg hdone, if_neg fun h => absurd h.1 (by decide), if_neg hdone]
  refine ⟨⟨hssn.trans hw.ssn, fun conn => (hconns conn).trans (hw.connected conn), hstep.count, fun j hj => ?_, ?_⟩,
    hslots⟩
  · have hne : j ≠ i := fun h => hnew (h ▸ hj)
    rw [hslots]
    split
    · rw [Function.update_of_ne hne]
      exact hw.posted j (List.mem_cons_of_mem i hj)
    · exact hw.posted j (List.mem_cons_of_mem i hj)
  · have hcount := hw.left
    dsimp only [wait_completion]
    rw [if_pos hround]
    simp only [List.length_cons] at hcount hlength
    omega

theorem Left.wait_for_size (hw : Left size left w) (qp : qp_id) (completed : Nat → Bool) (hnodup : left.Nodup)
    (hsize : size < 256) (hlength : left.length < 256)
    (hfew : count_successes (slots_after completed left w.sends.posted_sends) size ≤ size / 2) :
    ∃ w', wait_for_size qp size w (one_by_one completed left) = .done w' [] ∧ w'.posted_send_count = 0 ∧
      w'.sends.posted_sends = slots_after completed left w.sends.posted_sends := by
  induction left generalizing w with
  | nil =>
    have hstop : ¬ waits size w := fun h => h.2 hw.left
    exact ⟨w, wait_for_size_of_not_waits qp hstop [], hw.left, by funext j; simp [slots_after]⟩
  | cons i left ih =>
    obtain ⟨hnew, hnodup⟩ := List.nodup_cons.mp hnodup
    obtain ⟨hnext, hposted⟩ := hw.batch qp completed hnew hsize hlength
    have hwaits : waits size w := by
      refine ⟨?_, by rw [hw.left]; simp⟩
      rw [hw.count]
      exact Nat.le_trans count_successes_le_after hfew
    rw [slots_after_cons hnew, ← hposted] at hfew ⊢
    obtain ⟨w', hdone, hend⟩ := ih hnext hnodup (by simp at hlength; omega) hfew
    refine ⟨w', ?_, hend⟩
    rw [one_by_one, List.map_cons, rc.wait_for_size, if_pos hwaits]
    exact hdone

/-- The servers whose sends have not completed. -/
def unfinished (cid : dare_cid_t) (posted_sends : Nat → Int) : List Nat :=
  (List.range (get_group_size cid)).filter fun i => decide (posted_sends i = 1)

theorem get_group_size_lt (cid : dare_cid_t) : get_group_size cid < 256 := by
  have h₀ := cid.size_0.toNat_lt
  have h₁ := cid.size_1.toNat_lt
  rw [get_group_size]
  split_ifs <;> omega

theorem length_unfinished_lt (cid : dare_cid_t) (posted_sends : Nat → Int) :
    (unfinished cid posted_sends).length < 256 := by
  have hle := List.length_filter_le (fun i => decide (posted_sends i = 1)) (List.range (get_group_size cid))
  rw [List.length_range] at hle
  exact Nat.lt_of_le_of_lt hle (get_group_size_lt cid)

theorem count_posted_eq (hposted : Posted cid posted_sends) :
    count_posted posted_sends (get_group_size cid) = (unfinished cid posted_sends).length := by
  have hsum (l : List Nat) : (l.map fun i => if posted_sends i < 0 then 0 else (posted_sends i).toNat).sum =
      (l.filter fun i => decide (posted_sends i = 1)).length := by
    induction l with
    | nil => rfl
    | cons i l ih =>
      rw [List.map_cons, List.sum_cons, ih, List.filter_cons]
      obtain h | h | h := hposted.slot i <;> simp [h]
      omega
  rw [count_posted, hsum, ← unfinished, Nat.mod_eq_of_lt (length_unfinished_lt cid posted_sends)]

theorem slots_after_unfinished (hposted : Posted cid posted_sends)
    (hzero : ∀ i, posted_sends i = 0 → completed i = true)
    (hcompleted : ∀ i, completed i = true → posted_sends i = 0 ∨ posted_sends i = 1) (size : Nat) :
    count_successes (slots_after completed (unfinished cid posted_sends) posted_sends) size =
      (List.range size).countP completed := by
  refine List.countP_congr fun i _ => ?_
  rw [decide_eq_true_eq, slots_after]
  constructor
  · intro h
    split at h
    · rename_i hdone
      exact hdone.2
    · exact hzero i h
  · intro hdone
    obtain h | h := hcompleted i hdone
    · rw [h, ite_self]
    · have hlt : i < get_group_size cid := by
        by_contra hge
        rw [hposted.above i (Nat.le_of_not_lt hge)] at h
        exact absurd h (by decide)
      rw [if_pos ⟨List.mem_filter.mpr ⟨List.mem_range.mpr hlt, decide_eq_true h⟩, hdone⟩]

theorem completions_one_by_one (left : List Nat) :
    completions (one_by_one completed left) = left.map (completion_of completed) := by
  induction left with
  | nil => rfl
  | cons i left ih =>
    rw [List.map_cons, ← ih]
    rfl

theorem one_by_one_arriving (hposted : ∀ i ∈ left, posted_sends i = 1) (hnodup : left.Nodup) :
    Arriving (round_of posted_sends) (one_by_one completed left) := by
  have hconns : round_conns (round_of posted_sends).ssn (completions (one_by_one completed left)) = left := by
    rw [completions_one_by_one, round_conns, List.filter_map, List.map_map]
    have hall : (left.filter ((fun wc => decide (wc.wr_id.ssn = (round_of posted_sends).ssn)) ∘
        completion_of completed)) = left := List.filter_eq_self.mpr fun i _ => rfl
    rw [hall]
    exact List.map_id left
  refine ⟨⟨fun _ _ => rfl, fun wc hwc => ?_⟩, ⟨?_, ?_⟩⟩
  · rw [completions_one_by_one] at hwc
    obtain ⟨i, -, rfl⟩ := List.mem_map.mp hwc
    exact Nat.le_refl 1
  · rw [hconns]
    exact hposted
  · rw [hconns]
    exact hnodup

theorem one_by_one_kept : StatusKept 1 (one_by_one completed left) := by
  intro batch hmem hfirst wc hwc _
  obtain ⟨i, -, hbatch⟩ := List.mem_map.mp hmem
  cases hbatch
  rw [List.mem_singleton.mp hwc]
  exact hfirst

/-- If the sends that complete have a majority of the second size and none of the first, the wait succeeds. -/
theorem success_without_quorum (hposted : Posted cid posted_sends) (hstate : cid.state ≠ CID_STABLE)
    (hzero : ∀ i, posted_sends i = 0 → completed i = true)
    (hcompleted : ∀ i, completed i = true → posted_sends i = 0 ∨ posted_sends i = 1)
    (hsecond : Majority cid.size_1.toNat completed) (hfirst : ¬ Majority cid.size_0.toNat completed) :
    ¬ SuccessMeansQuorum .CTRL_QP cid (round_of posted_sends)
      (one_by_one completed (unfinished cid posted_sends)) := by
  have hcount := slots_after_unfinished hposted hzero hcompleted
  have hfew : count_successes (slots_after completed (unfinished cid posted_sends) posted_sends) cid.size_0.toNat ≤
      cid.size_0.toNat / 2 := by
    rw [Majority, ← hcount] at hfirst
    exact Nat.le_of_not_lt hfirst
  have hstart : Left cid.size_0.toNat (unfinished cid posted_sends) (start_wait cid (round_of posted_sends)) :=
    ⟨rfl, fun _ => rfl, rfl, fun i hi => of_decide_eq_true (List.mem_filter.mp hi).2, count_posted_eq hposted⟩
  obtain ⟨w, hdone, hnone, hslots⟩ := hstart.wait_for_size .CTRL_QP completed
    (List.nodup_range.filter _) cid.size_0.toNat_lt (length_unfinished_lt cid posted_sends) hfew
  have hnot : ¬ waits cid.size_1.toNat (recount cid.size_1.toNat w) := fun h => h.2 hnone
  have hsuccess : wait_result cid.size_1.toNat (recount cid.size_1.toNat w) = .RC_SUCCESS := by
    rw [wait_result, recount, hslots]
    refine if_pos ?_
    rw [Majority, ← hcount] at hsecond
    exact hsecond
  intro hall
  have hresult : wait_for_majority .CTRL_QP cid (round_of posted_sends)
      (one_by_one completed (unfinished cid posted_sends)) = some (.RC_SUCCESS, w.sends, []) := by
    dsimp only [wait_for_majority]
    rw [hdone]
    dsimp only
    rw [if_neg hstate, wait_for_size_of_not_waits .CTRL_QP hnot]
    dsimp only
    rw [hsuccess]
    rfl
  have hquorum := hall w.sends hresult
  refine hfirst (Nat.lt_of_lt_of_le hquorum.1 (List.countP_mono_left fun i _ hi => ?_))
  obtain ⟨-, h⟩ | ⟨wc, hwc, -, hconn, hrc⟩ := of_decide_eq_true hi
  · exact hzero i h
  · rw [completions_one_by_one] at hwc
    obtain ⟨j, -, rfl⟩ := List.mem_map.mp hwc
    obtain rfl : j = i := hconn
    rw [handle_completion_of] at hrc
    by_contra hnotdone
    rw [if_neg hnotdone] at hrc
    cases hrc

end necessity

/-- A wait whose polls keep the status of each completion of the round succeeds only with a quorum, whatever
    completes and in which order, if and only if the configuration is stable or the two sizes are nested for
    the sends that were posted. -/
theorem success_means_quorum_iff (cid : dare_cid_t) (posted_sends : Nat → Int)
    (hposted : Posted cid posted_sends) :
    (∀ qp s polls, s.posted_sends = posted_sends → Arriving s polls → StatusKept s.ssn polls →
        SuccessMeansQuorum qp cid s polls) ↔
      cid.state = CID_STABLE ∨ SizesNested cid posted_sends := by
  constructor
  · intro hall
    by_cases hstate : cid.state = CID_STABLE
    · exact .inl hstate
    · refine .inr fun completed hzero hcompleted hsecond => ?_
      by_contra hfirst
      refine success_without_quorum hposted hstate hzero hcompleted hsecond hfirst ?_
      exact hall .CTRL_QP (round_of posted_sends) _ rfl
        (one_by_one_arriving (fun i hi => of_decide_eq_true (List.mem_filter.mp hi).2)
          (List.nodup_range.filter _)) one_by_one_kept
  · rintro hcid qp s polls rfl harriving hkept
    exact quorum_of_success harriving hkept fun hstate => hcid.resolve_left hstate

/-- A group of odd size can be extended by one server: more than half of the new group is more than half of
    the old one without it. -/
theorem sizes_nested_of_odd {cid : dare_cid_t} (hnext : cid.size_1.toNat = cid.size_0.toNat + 1)
    (hodd : cid.size_0.toNat % 2 = 1) (posted_sends : Nat → Int) : SizesNested cid posted_sends := by
  intro completed _ _ hsecond
  rw [Majority, hnext, List.range_succ, List.countP_append] at hsecond
  have hlast := List.countP_le_length (p := completed) (l := [cid.size_0.toNat])
  rw [List.length_singleton] at hlast
  rw [Majority]
  omega

def growing_cid : dare_cid_t := ⟨0, 3, 4, CID_TRANSIT, 15⟩

/-- Server 0 replicates its vote while the group grows from three servers to four. -/
theorem vote_in_growing_group :
    SuccessMeansQuorum .CTRL_QP growing_cid (round_of (post_sends growing_cid 0 0 fun _ => true))
      (one_by_one (fun _ => true) [1, 2]) :=
  (success_means_quorum_iff growing_cid _ (post_sends_posted growing_cid 0 (.inl rfl) _)).mpr
    (.inr (sizes_nested_of_odd rfl rfl _)) .CTRL_QP _ _ rfl (one_by_one_arriving (by decide) (by decide))
    one_by_one_kept

def five_cid : dare_cid_t := ⟨0, 5, 0, CID_STABLE, 31⟩

def extended_cid : dare_cid_t := ⟨0, 4, 5, CID_EXTENDED, 31⟩

/-- Only server 1 gets the vote of server 0. In a group of five it counts for those with a completion in the
    same poll, and in a group of four that is being extended the slot of the added server counts. -/
theorem vote_without_quorum :
    let only_one (i : Nat) : Bool := decide (i = 1)
    let five := round_of (post_sends five_cid 0 0 fun _ => true)
    let poll : List poll_t := [some ([1, 2, 3].map (completion_of only_one))]
    let extended := round_of (post_sends extended_cid 0 0 fun _ => true)
    let polls := one_by_one only_one [1, 2, 3]
    (Arriving five poll ∧ ¬ SuccessMeansQuorum .CTRL_QP five_cid five poll) ∧
      Arriving extended polls ∧ ¬ SuccessMeansQuorum .CTRL_QP extended_cid extended polls := by
  refine ⟨⟨⟨⟨fun _ _ => rfl, by decide⟩, by decide, by decide⟩, fun hall => ?_⟩,
    one_by_one_arriving (by decide) (by decide), fun hall => ?_⟩
  · exact absurd (hall _ rfl).1 (by decide)
  · exact absurd (hall _ rfl).1 (by decide)

end dare.rc
