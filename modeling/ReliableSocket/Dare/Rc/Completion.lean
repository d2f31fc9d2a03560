import Mathlib.Data.Finset.Max
import ReliableSocket.Run
import ReliableSocket.Dare.Ibv.Endpoint

open dare.ibv run

namespace dare.rc

inductive ibv_wc_status where
  | IBV_WC_SUCCESS
  | IBV_WC_LOC_LEN_ERR
  | IBV_WC_LOC_QP_OP_ERR
  | IBV_WC_LOC_EEC_OP_ERR
  | IBV_WC_LOC_PROT_ERR
  | IBV_WC_WR_FLUSH_ERR
  | IBV_WC_MW_BIND_ERR
  | IBV_WC_BAD_RESP_ERR
  | IBV_WC_LOC_ACCESS_ERR
  | IBV_WC_REM_INV_REQ_ERR
  | IBV_WC_REM_ACCESS_ERR
  | IBV_WC_REM_OP_ERR
  | IBV_WC_RETRY_EXC_ERR
  | IBV_WC_RNR_RETRY_EXC_ERR
  | IBV_WC_LOC_RDD_VIOL_ERR
  | IBV_WC_REM_INV_RD_REQ_ERR
  | IBV_WC_REM_ABORT_ERR
  | IBV_WC_INV_EECN_ERR
  | IBV_WC_INV_EEC_STATE_ERR
  | IBV_WC_FATAL_ERR
  | IBV_WC_RESP_TIMEOUT_ERR
  | IBV_WC_GENERAL_ERR
deriving DecidableEq, Repr

open ibv_wc_status

/-- What a completion means for its request. -/
inductive wc_rc_t where
  | WC_SUCCESS
  | WC_FAILURE
  | WC_SOFTWARE_BUG
  | WC_ERROR
deriving DecidableEq, Repr

/-- The identifier of a work request: send sequence number, wrap-around bit, tag and connection. -/
structure wrid_t where
  ssn : Nat
  wa : Bool
  tag : Bool
  conn : Nat
deriving DecidableEq, Repr

def WRID_UNSET_TAG (wr_id : wrid_t) : wrid_t := { wr_id with tag := false }

/-- A work completion. -/
structure ibv_wc where
  wr_id : wrid_t
  status : ibv_wc_status
deriving DecidableEq, Repr

def handle_work_completion (wc : ibv_wc) : wc_rc_t :=
  match wc.status with
  | IBV_WC_SUCCESS => .WC_SUCCESS
  | IBV_WC_LOC_LEN_ERR | IBV_WC_LOC_QP_OP_ERR | IBV_WC_LOC_EEC_OP_ERR | IBV_WC_LOC_PROT_ERR
  | IBV_WC_MW_BIND_ERR | IBV_WC_LOC_ACCESS_ERR | IBV_WC_REM_ACCESS_ERR | IBV_WC_RNR_RETRY_EXC_ERR
  | IBV_WC_LOC_RDD_VIOL_ERR | IBV_WC_REM_INV_RD_REQ_ERR | IBV_WC_REM_ABORT_ERR | IBV_WC_INV_EECN_ERR
  | IBV_WC_INV_EEC_STATE_ERR => .WC_SOFTWARE_BUG
  | IBV_WC_WR_FLUSH_ERR | IBV_WC_RETRY_EXC_ERR => .WC_FAILURE
  | IBV_WC_BAD_RESP_ERR | IBV_WC_REM_INV_REQ_ERR | IBV_WC_REM_OP_ERR | IBV_WC_FATAL_ERR
  | IBV_WC_RESP_TIMEOUT_ERR | IBV_WC_GENERAL_ERR => .WC_ERROR

/-- The state of a queue pair in the bookkeeping of sends. -/
inductive rc_qp_state where
  | RC_QP_ACTIVE
  | RC_QP_BLOCKED
  | RC_QP_ERROR
deriving DecidableEq, Repr

open rc_qp_state

/-- What the completions of a connection change: data of its server and of its queue pair. -/
structure conn_t where
  rc_connected : Bool
  fail_count : UInt8
  last_get_read_ssn : Nat
  signaled_wr_id : Option wrid_t
  state : rc_qp_state
deriving DecidableEq, Repr

/-- The sends of the current round: for each server the number of those that are not completed, or less
    than zero. -/
structure sends_t where
  ssn : Nat
  posted_sends : Nat → Int
  conns : Nat → conn_t

namespace sends_t

def set_posted (s : sends_t) (conn : Nat) (posted : Int) : sends_t :=
  { s with posted_sends := Function.update s.posted_sends conn posted }

def set_conn (s : sends_t) (conn : Nat) (c : conn_t) : sends_t :=
  { s with conns := Function.update s.conns conn c }

@[simp] theorem set_posted_ssn (s : sends_t) (conn : Nat) (posted : Int) :
    (s.set_posted conn posted).ssn = s.ssn := rfl

@[simp] theorem set_posted_posted (s : sends_t) (conn : Nat) (posted : Int) :
    (s.set_posted conn posted).posted_sends = Function.update s.posted_sends conn posted := rfl

@[simp] theorem set_posted_conns (s : sends_t) (conn : Nat) (posted : Int) :
    (s.set_posted conn posted).conns = s.conns := rfl

@[simp] theorem set_conn_ssn (s : sends_t) (conn : Nat) (c : conn_t) : (s.set_conn conn c).ssn = s.ssn := rfl

@[simp] theorem set_conn_posted (s : sends_t) (conn : Nat) (c : conn_t) :
    (s.set_conn conn c).posted_sends = s.posted_sends := rfl

@[simp] theorem set_conn_conns (s : sends_t) (conn : Nat) (c : conn_t) :
    (s.set_conn conn c).conns = Function.update s.conns conn c := rfl

end sends_t

section accounting

variable (qp : qp_id) (wr_id : wrid_t)

/-- The work on a completion before its status is known. A queue pair whose special signaled request is
    found leaves the blocked state. -/
def note_completion (c : conn_t) : conn_t :=
  let c := { c with
    last_get_read_ssn := if qp = .LOG_QP ∧ wr_id.ssn ≥ c.last_get_read_ssn then 0 else c.last_get_read_ssn }
  if c.signaled_wr_id = some wr_id then
    { c with
      signaled_wr_id := some (WRID_UNSET_TAG wr_id)
      state := if c.state = RC_QP_BLOCKED then RC_QP_ERROR else c.state }
  else c

/-- The queue pair can be restarted: no special signaled request of it is lost. -/
def can_restart_qp (c : conn_t) : Bool :=
  match c.signaled_wr_id with
  | none => true
  | some signaled => decide (wr_id = signaled)

def count_failure (can_restart : Bool) (c : conn_t) : conn_t :=
  { c with
    state := if can_restart then RC_QP_ERROR else if c.state ≠ RC_QP_ERROR then RC_QP_BLOCKED else c.state
    fail_count := if qp = .CTRL_QP then c.fail_count + 1 else c.fail_count }

def reset_failures (c : conn_t) : conn_t := { c with fail_count := 0 }

end accounting

/-- One round of the loop of `empty_completion_queue`, without the work on log replication. -/
def empty_completion_queue (qp : qp_id) (s : sends_t) (wc : ibv_wc) : sends_t :=
  let conn := wc.wr_id.conn
  let can_restart := can_restart_qp wc.wr_id (s.conns conn)
  let c := note_completion qp wc.wr_id (s.conns conn)
  match handle_work_completion wc with
  | .WC_SUCCESS =>
    let reset := s.set_conn conn (reset_failures c)
    if wc.wr_id.ssn = s.ssn then reset.set_posted conn (s.posted_sends conn - 1) else reset
  | .WC_FAILURE =>
    let failed := s.set_conn conn (count_failure qp can_restart c)
    if wc.wr_id.ssn = s.ssn then failed.set_posted conn (-1) else failed
  | .WC_SOFTWARE_BUG | .WC_ERROR => s.set_conn conn c

/-- One round of the loop of `wait_for_majority`, where `rc` is the status of the first completion of the
    batch. -/
def wait_for_majority_completion (qp : qp_id) (rc : wc_rc_t) (s : sends_t) (wc : ibv_wc) : sends_t :=
  let conn := wc.wr_id.conn
  let can_restart := can_restart_qp wc.wr_id (s.conns conn)
  let c := note_completion qp wc.wr_id (s.conns conn)
  if c.rc_connected = false then s.set_conn conn c
  else
    match rc with
    | .WC_SUCCESS =>
      let reset := s.set_conn conn (reset_failures c)
      if s.ssn > wc.wr_id.ssn then reset else reset.set_posted conn (s.posted_sends conn - 1)
    | .WC_FAILURE => s.set_conn conn (count_failure qp can_restart c)
    | .WC_SOFTWARE_BUG | .WC_ERROR => s.set_conn conn c

/-- The same loop in `wait_for_one`. -/
def wait_for_one_completion (qp : qp_id) (rc : wc_rc_t) (s : sends_t) (wc : ibv_wc) : sends_t :=
  let conn := wc.wr_id.conn
  let can_restart := can_restart_qp wc.wr_id (s.conns conn)
  let c := note_completion qp wc.wr_id (s.conns conn)
  if c.rc_connected = false then s.set_conn conn c
  else
    match rc with
    | .WC_SUCCESS =>
      let reset := s.set_conn conn (reset_failures c)
      if wc.wr_id.ssn = s.ssn then reset.set_posted conn (s.posted_sends conn - 1) else reset
    | .WC_FAILURE => s.set_conn conn (count_failure qp can_restart c)
    | .WC_SOFTWARE_BUG | .WC_ERROR => s.set_conn conn c

/-- The completions of a batch that the loops with an 8-bit counter go over. -/
def counted (batch : List ibv_wc) : List ibv_wc := batch.take (batch.length % 256)

/-- The status that these loops take for all of them, with that of an empty batch left open. -/
def first_rc (batch : List ibv_wc) : wc_rc_t :=
  match batch with
  | [] => .WC_ERROR
  | wc :: _ => handle_work_completion wc

/-- The completions of a poll belong to connected servers and to this round of sends or an earlier one. -/
structure Polled (s : sends_t) (batch : List ibv_wc) : Prop where
  connected : ∀ wc ∈ batch, (s.conns wc.wr_id.conn).rc_connected = true
  ssn_le : ∀ wc ∈ batch, wc.wr_id.ssn ≤ s.ssn

/-- Both waiting loops go through the states that the loop of `empty_completion_queue` goes through. -/
def AccountsEach (batch : List ibv_wc) : Prop :=
  ∀ qp s, Polled s batch →
    states (wait_for_majority_completion qp (first_rc batch)) s (counted batch) =
        states (empty_completion_queue qp) s batch ∧
      states (wait_for_one_completion qp (first_rc batch)) s (counted batch) =
        states (empty_completion_queue qp) s batch

/-- The statuses that change nothing. -/
def Ignored (rc : wc_rc_t) : Prop := rc = .WC_SOFTWARE_BUG ∨ rc = .WC_ERROR

/-- A completion without effect that may be taken for a success: it is of an earlier round, since the batch
    has a later one, and its connection has no failures, since a success of it came before. -/
def Harmless (batch before : List ibv_wc) (wc : ibv_wc) : Prop :=
  Ignored (handle_work_completion wc) ∧ (∃ later ∈ batch, wc.wr_id.ssn < later.wr_id.ssn) ∧
    ∃ earlier ∈ before, handle_work_completion earlier = .WC_SUCCESS ∧ earlier.wr_id.conn = wc.wr_id.conn

/-- No completion of the batch has a status whose effect differs from that of the first one. -/
def StatusShared (batch : List ibv_wc) : Prop :=
  match first_rc batch with
  | .WC_SUCCESS => ∀ before wc after, batch = before ++ wc :: after →
      handle_work_completion wc = .WC_SUCCESS ∨ Harmless batch before wc
  | .WC_FAILURE => False
  | .WC_SOFTWARE_BUG | .WC_ERROR => ∀ wc ∈ batch, Ignored (handle_work_completion wc)

section step

variable {qp : qp_id} {rc : wc_rc_t} {s : sends_t} {wc : ibv_wc}

theorem note_completion_eq (qp : qp_id) (wr_id : wrid_t) (c : conn_t) :
    (note_completion qp wr_id c).rc_connected = c.rc_connected ∧
      (note_completion qp wr_id c).fail_count = c.fail_count := by
  dsimp only [note_completion]
  split <;> exact ⟨rfl, rfl⟩

/-- With completions of this round or an earlier one the two waiting loops do the same. -/
theorem wait_for_majority_eq_one (hssn : wc.wr_id.ssn ≤ s.ssn) :
    wait_for_majority_completion qp rc s wc = wait_for_one_completion qp rc s wc := by
  cases rc with
  | WC_SUCCESS =>
    dsimp only [wait_for_majority_completion, wait_for_one_completion]
    by_cases hround : wc.wr_id.ssn = s.ssn
    · rw [if_neg (show ¬ s.ssn > wc.wr_id.ssn by omega), if_pos hround]
    · rw [if_pos (show s.ssn > wc.wr_id.ssn by omega), if_neg hround]
  | WC_FAILURE => rfl
  | WC_SOFTWARE_BUG => rfl
  | WC_ERROR => rfl

theorem rc_connected_update {conns : Nat → conn_t} {i : Nat} {c : conn_t}
    (hc : c.rc_connected = (conns i).rc_connected) (conn : Nat) :
    (Function.update conns i c conn).rc_connected = (conns conn).rc_connected := by
  by_cases heq : conn = i
  · rw [heq, Function.update_self, hc]
  · rw [Function.update_of_ne heq]

/-- A completion leaves the round, the connected servers and the data of other connections as they are. -/
theorem empty_completion_keeps (qp : qp_id) (s : sends_t) (wc : ibv_wc) :
    (empty_completion_queue qp s wc).ssn = s.ssn ∧
      (∀ conn, ((empty_completion_queue qp s wc).conns conn).rc_connected = (s.conns conn).rc_connected) ∧
      (∀ conn, conn ≠ wc.wr_id.conn → (empty_completion_queue qp s wc).conns conn = s.conns conn ∧
        (empty_completion_queue qp s wc).posted_sends conn = s.posted_sends conn) := by
  have hnoted := note_completion_eq qp wc.wr_id (s.conns wc.wr_id.conn)
  dsimp only [empty_completion_queue]
  split
  · split
    · refine ⟨rfl, rc_connected_update hnoted.1, fun conn hne => ⟨?_, ?_⟩⟩ <;> exact Function.update_of_ne hne ..
    · exact ⟨rfl, rc_connected_update hnoted.1, fun conn hne => ⟨Function.update_of_ne hne .., rfl⟩⟩
  · split
    · refine ⟨rfl, rc_connected_update hnoted.1, fun conn hne => ⟨?_, ?_⟩⟩ <;> exact Function.update_of_ne hne ..
    · exact ⟨rfl, rc_connected_update hnoted.1, fun conn hne => ⟨Function.update_of_ne hne .., rfl⟩⟩
  · exact ⟨rfl, rc_connected_update hnoted.1, fun conn hne => ⟨Function.update_of_ne hne .., rfl⟩⟩
  · exact ⟨rfl, rc_connected_update hnoted.1, fun conn hne => ⟨Function.update_of_ne hne .., rfl⟩⟩

/-- The failure count after a completion with this status. -/
def failures_after (qp : qp_id) (rc : wc_rc_t) (failures : UInt8) : UInt8 :=
  match rc with
  | .WC_SUCCESS => 0
  | .WC_FAILURE => if qp = .CTRL_QP then failures + 1 else failures
  | .WC_SOFTWARE_BUG | .WC_ERROR => failures

theorem empty_completion_fail_count (qp : qp_id) (s : sends_t) (wc : ibv_wc) :
    ((empty_completion_queue qp s wc).conns wc.wr_id.conn).fail_count =
      failures_after qp (handle_work_completion wc) (s.conns wc.wr_id.conn).fail_count := by
  have hnoted := (note_completion_eq qp wc.wr_id (s.conns wc.wr_id.conn)).2
  cases hrc : handle_work_completion wc <;> simp only [empty_completion_queue, hrc, failures_after]
  · split <;> simp [reset_failures]
  · split <;> simp [count_failure, hnoted]
  · simp [hnoted]
  · simp [hnoted]

theorem wait_for_one_of_connected (hconn : (s.conns wc.wr_id.conn).rc_connected = true) :
    wait_for_one_completion qp rc s wc =
      let conn := wc.wr_id.conn
      let c := note_completion qp wc.wr_id (s.conns conn)
      match rc with
      | .WC_SUCCESS =>
        let reset := s.set_conn conn (reset_failures c)
        if wc.wr_id.ssn = s.ssn then reset.set_posted conn (s.posted_sends conn - 1) else reset
      | .WC_FAILURE => s.set_conn conn (count_failure qp (can_restart_qp wc.wr_id (s.conns conn)) c)
      | .WC_SOFTWARE_BUG | .WC_ERROR => s.set_conn conn c := by
  have hnoted := (note_completion_eq qp wc.wr_id (s.conns wc.wr_id.conn)).1
  cases rc <;> dsimp only [wait_for_one_completion] <;> rw [hnoted, hconn, if_neg Bool.noConfusion]

theorem wait_for_one_fail_count (hconn : (s.conns wc.wr_id.conn).rc_connected = true) :
    ((wait_for_one_completion qp rc s wc).conns wc.wr_id.conn).fail_count =
      failures_after qp rc (s.conns wc.wr_id.conn).fail_count := by
  have hnoted := (note_completion_eq qp wc.wr_id (s.conns wc.wr_id.conn)).2
  rw [wait_for_one_of_connected hconn]
  cases rc with
  | WC_SUCCESS =>
    dsimp only
    split <;> simp [reset_failures, failures_after]
  | WC_FAILURE => simp [count_failure, failures_after, hnoted]
  | WC_SOFTWARE_BUG => simp [failures_after, hnoted]
  | WC_ERROR => simp [failures_after, hnoted]

/-- The sends left of a server after a completion of this round that succeeded, or failed. -/
theorem empty_completion_posted (qp : qp_id) (s : sends_t) (wc : ibv_wc) (hssn : wc.wr_id.ssn = s.ssn) :
    (empty_completion_queue qp s wc).posted_sends wc.wr_id.conn =
      match handle_work_completion wc with
      | .WC_SUCCESS => s.posted_sends wc.wr_id.conn - 1
      | .WC_FAILURE => -1
      | .WC_SOFTWARE_BUG | .WC_ERROR => s.posted_sends wc.wr_id.conn := by
  cases hrc : handle_work_completion wc <;> simp [empty_completion_queue, hrc, hssn]

theorem empty_completion_posted_of_old (qp : qp_id) (hssn : wc.wr_id.ssn ≠ s.ssn) :
    (empty_completion_queue qp s wc).posted_sends = s.posted_sends := by
  cases hrc : handle_work_completion wc <;> simp [empty_completion_queue, hrc, hssn]

theorem wait_for_one_posted (hconn : (s.conns wc.wr_id.conn).rc_connected = true)
    (hssn : wc.wr_id.ssn = s.ssn) :
    (wait_for_one_completion qp rc s wc).posted_sends wc.wr_id.conn =
      match rc with
      | .WC_SUCCESS => s.posted_sends wc.wr_id.conn - 1
      | .WC_FAILURE | .WC_SOFTWARE_BUG | .WC_ERROR => s.posted_sends wc.wr_id.conn := by
  rw [wait_for_one_of_connected hconn]
  cases rc <;> simp [hssn]

/-- The loops agree on a completion whose status is the one they take, and is not a failure. -/
theorem wait_for_one_eq_of_success (hconn : (s.conns wc.wr_id.conn).rc_connected = true)
    (hrc : handle_work_completion wc = .WC_SUCCESS) :
    wait_for_one_completion qp .WC_SUCCESS s wc = empty_completion_queue qp s wc := by
  rw [wait_for_one_of_connected hconn]
  simp only [empty_completion_queue, hrc]

theorem wait_for_one_eq_of_ignored (hconn : (s.conns wc.wr_id.conn).rc_connected = true) (hrc : Ignored rc)
    (hwc : Ignored (handle_work_completion wc)) :
    wait_for_one_completion qp rc s wc = empty_completion_queue qp s wc := by
  rw [wait_for_one_of_connected hconn]
  obtain rfl | rfl := hrc <;> obtain hwc | hwc := hwc <;> simp only [empty_completion_queue, hwc]

/-- They also agree if a completion without effect is taken for a success, when it is of an earlier round and
    there is no failure to forget. -/
theorem wait_for_one_eq_of_old (hconn : (s.conns wc.wr_id.conn).rc_connected = true)
    (hwc : Ignored (handle_work_completion wc)) (hfail : (s.conns wc.wr_id.conn).fail_count = 0)
    (hssn : wc.wr_id.ssn ≠ s.ssn) :
    wait_for_one_completion qp .WC_SUCCESS s wc = empty_completion_queue qp s wc := by
  have hreset : reset_failures (note_completion qp wc.wr_id (s.conns wc.wr_id.conn)) =
      note_completion qp wc.wr_id (s.conns wc.wr_id.conn) := by
    rw [reset_failures, ← hfail, ← (note_completion_eq qp wc.wr_id (s.conns wc.wr_id.conn)).2]
  rw [wait_for_one_of_connected hconn]
  obtain hwc | hwc := hwc <;> simp only [empty_completion_queue, hwc, if_neg hssn, hreset]

theorem add_one_ne (failures : UInt8) : failures + 1 ≠ failures := by simp

theorem add_one_ne_zero {failures : UInt8} (hsmall : failures ≤ 1) : failures + 1 ≠ 0 := by grind

/-- On the control queue pair, where failures are counted, they agree in no other case, unless the count of
    failures overflows. -/
theorem ignored_of_success_eq (hconn : (s.conns wc.wr_id.conn).rc_connected = true)
    (hsmall : (s.conns wc.wr_id.conn).fail_count ≤ 1)
    (heq : wait_for_one_completion .CTRL_QP .WC_SUCCESS s wc = empty_completion_queue .CTRL_QP s wc) :
    handle_work_completion wc = .WC_SUCCESS ∨
      Ignored (handle_work_completion wc) ∧ (s.conns wc.wr_id.conn).fail_count = 0 ∧
        wc.wr_id.ssn ≠ s.ssn := by
  have hfail := empty_completion_fail_count .CTRL_QP s wc
  rw [← heq, wait_for_one_fail_count hconn] at hfail
  have hposted (hssn : wc.wr_id.ssn = s.ssn) := empty_completion_posted .CTRL_QP s wc hssn
  rw [← heq] at hposted
  cases hrc : handle_work_completion wc with
  | WC_SUCCESS => exact .inl rfl
  | WC_FAILURE =>
    rw [hrc] at hfail
    exact absurd hfail.symm (add_one_ne_zero hsmall)
  | WC_SOFTWARE_BUG | WC_ERROR =>
    simp only [hrc, failures_after] at hfail hposted
    refine .inr ⟨by simp [Ignored], hfail.symm, fun hssn => ?_⟩
    have hleft := hposted hssn
    rw [wait_for_one_posted hconn hssn] at hleft
    dsimp only at hleft
    omega

theorem posted_of_failure_eq (hconn : (s.conns wc.wr_id.conn).rc_connected = true)
    (heq : wait_for_one_completion .CTRL_QP .WC_FAILURE s wc = empty_completion_queue .CTRL_QP s wc)
    (hssn : wc.wr_id.ssn = s.ssn) : s.posted_sends wc.wr_id.conn = -1 := by
  have hfail := empty_completion_fail_count .CTRL_QP s wc
  rw [← heq, wait_for_one_fail_count hconn] at hfail
  have hposted := empty_completion_posted .CTRL_QP s wc hssn
  rw [← heq, wait_for_one_posted hconn hssn] at hposted
  cases hrc : handle_work_completion wc with
  | WC_FAILURE =>
    rw [hrc] at hposted
    exact hposted
  | WC_SUCCESS =>
    rw [hrc] at hposted
    have hless : s.posted_sends wc.wr_id.conn = s.posted_sends wc.wr_id.conn - 1 := hposted
    exact absurd hless (Int.sub_lt_self _ Int.one_pos).ne'
  | WC_SOFTWARE_BUG | WC_ERROR =>
    rw [hrc] at hfail
    exact absurd hfail (add_one_ne _)

theorem ignored_of_ignored_eq (hconn : (s.conns wc.wr_id.conn).rc_connected = true) (hrc : Ignored rc)
    (heq : wait_for_one_completion .CTRL_QP rc s wc = empty_completion_queue .CTRL_QP s wc) :
    Ignored (handle_work_completion wc) ∨ (s.conns wc.wr_id.conn).fail_count = 0 := by
  have hfail := empty_completion_fail_count .CTRL_QP s wc
  rw [← heq, wait_for_one_fail_count hconn] at hfail
  cases hwc : handle_work_completion wc with
  | WC_SUCCESS =>
    rw [hwc] at hfail
    obtain rfl | rfl := hrc <;> exact .inr hfail
  | WC_FAILURE =>
    rw [hwc] at hfail
    obtain rfl | rfl := hrc <;> exact absurd hfail.symm (add_one_ne _)
  | WC_SOFTWARE_BUG | WC_ERROR => exact .inl (by simp [Ignored])

end step

section run_of_batch

variable {qp : qp_id} {rc : wc_rc_t} {s : sends_t} {batch : List ibv_wc}

theorem steps_empty_keeps (qp : qp_id) (s : sends_t) (batch : List ibv_wc) :
    (run.steps (empty_completion_queue qp) s batch).ssn = s.ssn ∧
      ∀ conn, ((run.steps (empty_completion_queue qp) s batch).conns conn).rc_connected =
        (s.conns conn).rc_connected := by
  refine steps_invariant
    (I := fun t : sends_t => t.ssn = s.ssn ∧ ∀ conn, (t.conns conn).rc_connected = (s.conns conn).rc_connected)
    (fun t wc hkept => ?_) ⟨rfl, fun _ => rfl⟩ batch
  obtain ⟨hssn, hconn, -⟩ := empty_completion_keeps qp t wc
  exact ⟨hssn.trans hkept.1, fun conn => (hconn conn).trans (hkept.2 conn)⟩

/-- The completions so far hold a success of each connection that has no failures. -/
def SuccessPolled (past : List ibv_wc) (s : sends_t) : Prop :=
  ∀ conn, (s.conns conn).fail_count = 0 →
    ∃ earlier ∈ past, handle_work_completion earlier = .WC_SUCCESS ∧ earlier.wr_id.conn = conn

theorem SuccessPolled.step {past : List ibv_wc} (hpast : SuccessPolled past s) {wc : ibv_wc}
    (hwc : handle_work_completion wc ≠ .WC_FAILURE) :
    SuccessPolled (past ++ [wc]) (empty_completion_queue qp s wc) := by
  intro conn hzero
  have hold (hzero : (s.conns conn).fail_count = 0) : ∃ earlier ∈ past ++ [wc],
      handle_work_completion earlier = .WC_SUCCESS ∧ earlier.wr_id.conn = conn := by
    obtain ⟨earlier, hmem, hearlier⟩ := hpast conn hzero
    exact ⟨earlier, List.mem_append_left _ hmem, hearlier⟩
  by_cases hconn : conn = wc.wr_id.conn
  · subst hconn
    rw [empty_completion_fail_count] at hzero
    cases hrc : handle_work_completion wc with
    | WC_SUCCESS => exact ⟨wc, List.mem_append_right _ (List.mem_singleton_self wc), hrc, rfl⟩
    | WC_FAILURE => exact absurd hrc hwc
    | WC_SOFTWARE_BUG | WC_ERROR =>
      rw [hrc] at hzero
      exact hold hzero
  · rw [((empty_completion_keeps qp s wc).2.2 conn hconn).1] at hzero
    exact hold hzero

/-- The connections with a success among the completions so far have no failures. -/
def Cleared (past : List ibv_wc) (s : sends_t) : Prop :=
  ∀ earlier ∈ past, handle_work_completion earlier = .WC_SUCCESS →
    (s.conns earlier.wr_id.conn).fail_count = 0

theorem Cleared.step {past : List ibv_wc} (hpast : Cleared past s) {wc : ibv_wc}
    (hwc : handle_work_completion wc ≠ .WC_FAILURE) :
    Cleared (past ++ [wc]) (empty_completion_queue qp s wc) := by
  intro earlier hmem hrc
  obtain hmem | hmem := List.mem_append.mp hmem
  · by_cases hconn : earlier.wr_id.conn = wc.wr_id.conn
    · rw [hconn, empty_completion_fail_count, ← hconn, hpast earlier hmem hrc]
      cases hkind : handle_work_completion wc <;> simp_all [failures_after]
    · rw [((empty_completion_keeps qp s wc).2.2 _ hconn).1]
      exact hpast earlier hmem hrc
  · obtain rfl := List.mem_singleton.mp hmem
    rw [empty_completion_fail_count, hrc]
    rfl

theorem steps_successPolled (hs : SuccessPolled [] s)
    (hall : ∀ wc ∈ batch, handle_work_completion wc ≠ .WC_FAILURE) :
    SuccessPolled batch (run.steps (empty_completion_queue qp) s batch) :=
  steps_history (fun _ _ _ hpast hwc => hpast.step hwc) hs hall

theorem steps_cleared (hall : ∀ wc ∈ batch, handle_work_completion wc ≠ .WC_FAILURE) :
    Cleared batch (run.steps (empty_completion_queue qp) s batch) := by
  have hnone : Cleared [] s := fun _ hmem => absurd hmem List.not_mem_nil
  exact steps_history (fun _ _ _ hpast hwc => hpast.step hwc) hnone hall

/-- Each completion of the batch does the same in a waiting loop, which takes the status `rc` for all, as in
    `empty_completion_queue`. -/
def Agrees (qp : qp_id) (rc : wc_rc_t) (s : sends_t) (batch : List ibv_wc) : Prop :=
  run.AllOk (empty_completion_queue qp)
    (fun t wc => wait_for_one_completion qp rc t wc = empty_completion_queue qp t wc) s batch

theorem Polled.connected_at (hs : Polled s batch) {before after : List ibv_wc} {wc : ibv_wc}
    (heq : batch = before ++ wc :: after) :
    ((run.steps (empty_completion_queue qp) s before).conns wc.wr_id.conn).rc_connected = true := by
  rw [(steps_empty_keeps qp s before).2]
  exact hs.connected wc (heq ▸ List.mem_append_right _ List.mem_cons_self)

theorem agrees_of_success (hfirst : first_rc batch = .WC_SUCCESS) (hshared : StatusShared batch)
    (hs : Polled s batch) : Agrees qp .WC_SUCCESS s batch := by
  rw [StatusShared, hfirst] at hshared
  rw [Agrees, allOk_iff]
  intro before wc after heq
  obtain hrc | ⟨hrc, ⟨later, hlater, hlt⟩, earlier, hearlier, hsuccess, hconn⟩ := hshared before wc after heq
  · exact wait_for_one_eq_of_success (hs.connected_at heq) hrc
  · have hnofail : ∀ e ∈ before, handle_work_completion e ≠ .WC_FAILURE := by
      intro e he hfailed
      obtain ⟨front, back, hsplit⟩ := List.append_of_mem he
      have hwhole : batch = front ++ e :: (back ++ wc :: after) := by rw [heq, hsplit]; simp
      obtain hrc' | ⟨hrc', -⟩ := hshared front e _ hwhole
      · simp [hfailed] at hrc'
      · simp [hfailed, Ignored] at hrc'
    have hcleared : Cleared before (run.steps (empty_completion_queue qp) s before) := steps_cleared hnofail
    have hzero := hcleared earlier hearlier hsuccess
    rw [hconn] at hzero
    refine wait_for_one_eq_of_old (hs.connected_at heq) hrc hzero ?_
    rw [(steps_empty_keeps qp s before).1]
    have := hs.ssn_le later hlater
    omega

theorem agrees_of_ignored (hrc : Ignored rc) (hshared : ∀ wc ∈ batch, Ignored (handle_work_completion wc))
    (hs : Polled s batch) : Agrees qp rc s batch := by
  rw [Agrees, allOk_iff]
  intro before wc after heq
  exact wait_for_one_eq_of_ignored (hs.connected_at heq) hrc
    (hshared wc (heq ▸ List.mem_append_right _ List.mem_cons_self))

theorem agrees_of_shared (hshared : StatusShared batch) (hs : Polled s batch) :
    Agrees qp (first_rc batch) s batch := by
  cases hfirst : first_rc batch with
  | WC_SUCCESS => exact agrees_of_success hfirst hshared hs
  | WC_FAILURE =>
    rw [StatusShared, hfirst] at hshared
    exact hshared.elim
  | WC_SOFTWARE_BUG | WC_ERROR =>
    rw [StatusShared, hfirst] at hshared
    exact agrees_of_ignored (by simp [Ignored]) hshared hs

/-- A round of sends in which each server is connected, failed once before and has one send left. -/
def probe (ssn : Nat) : sends_t where
  ssn
  posted_sends _ := 1
  conns _ := { rc_connected := true, fail_count := 1, last_get_read_ssn := 0, signaled_wr_id := none,
               state := RC_QP_ACTIVE }

theorem probe_polled {ssn : Nat} (hle : ∀ wc ∈ batch, wc.wr_id.ssn ≤ ssn) : Polled (probe ssn) batch :=
  ⟨fun _ _ => rfl, hle⟩

/-- A failure of this round is never handled as it should be. -/
theorem Agrees.old_of_failure (hok : Agrees .CTRL_QP .WC_FAILURE s batch)
    (hconn : ∀ conn, (s.conns conn).rc_connected = true) (hposted : ∀ conn, 0 ≤ s.posted_sends conn) :
    ∀ wc ∈ batch, wc.wr_id.ssn ≠ s.ssn := by
  induction batch generalizing s with
  | nil => exact fun _ hmem => absurd hmem List.not_mem_nil
  | cons wc rest ih =>
    obtain ⟨hstep, hrest⟩ := hok
    obtain ⟨hssn, hconn', -⟩ := empty_completion_keeps .CTRL_QP s wc
    have hne : wc.wr_id.ssn ≠ s.ssn := by
      intro heq
      have := posted_of_failure_eq (hconn _) hstep heq
      have := hposted wc.wr_id.conn
      omega
    have hold := ih hrest (fun conn => (hconn' conn).trans (hconn conn))
      (by rwa [empty_completion_posted_of_old .CTRL_QP hne])
    rw [hssn] at hold
    exact List.forall_mem_cons.mpr ⟨hne, hold⟩

/-- Nor is any other completion than one without effect, when the first is without effect. -/
theorem Agrees.ignored (hok : Agrees .CTRL_QP rc s batch) (hrc : Ignored rc)
    (hconn : ∀ conn, (s.conns conn).rc_connected = true) (hfail : ∀ conn, (s.conns conn).fail_count ≠ 0) :
    ∀ wc ∈ batch, Ignored (handle_work_completion wc) := by
  induction batch generalizing s with
  | nil => exact fun _ hmem => absurd hmem List.not_mem_nil
  | cons wc rest ih =>
    obtain ⟨hstep, hrest⟩ := hok
    have hwc := (ignored_of_ignored_eq (hconn _) hrc hstep).resolve_right (hfail _)
    obtain ⟨-, hconn', hother⟩ := empty_completion_keeps .CTRL_QP s wc
    refine List.forall_mem_cons.mpr
      ⟨hwc, ih hrest (fun conn => (hconn' conn).trans (hconn conn)) fun conn => ?_⟩
    by_cases heq : conn = wc.wr_id.conn
    · rw [heq, empty_completion_fail_count]
      obtain hwc | hwc := hwc <;> rw [hwc] <;> exact hfail _
    · rw [(hother conn heq).1]
      exact hfail conn

/-- While each completion is taken for a success, as it should be, none is a failure. -/
theorem Agrees.no_failure (hok : Agrees .CTRL_QP .WC_SUCCESS s batch)
    (hconn : ∀ conn, (s.conns conn).rc_connected = true) (hsmall : ∀ conn, (s.conns conn).fail_count ≤ 1) :
    (∀ wc ∈ batch, handle_work_completion wc ≠ .WC_FAILURE) ∧
      ∀ conn, ((run.steps (empty_completion_queue .CTRL_QP) s batch).conns conn).fail_count ≤ 1 := by
  induction batch generalizing s with
  | nil => exact ⟨fun _ hmem => absurd hmem List.not_mem_nil, hsmall⟩
  | cons wc rest ih =>
    obtain ⟨hstep, hrest⟩ := hok
    obtain ⟨-, hconn', hother⟩ := empty_completion_keeps .CTRL_QP s wc
    have hwc : handle_work_completion wc ≠ .WC_FAILURE := by
      intro hfailed
      obtain hrc | ⟨hrc, -⟩ := ignored_of_success_eq (hconn _) (hsmall _) hstep
      · simp [hfailed] at hrc
      · simp [hfailed, Ignored] at hrc
    have hsmall' (conn : Nat) : ((empty_completion_queue .CTRL_QP s wc).conns conn).fail_count ≤ 1 := by
      by_cases heq : conn = wc.wr_id.conn
      · rw [heq, empty_completion_fail_count]
        cases hrc : handle_work_completion wc with
        | WC_SUCCESS => simp [failures_after]
        | WC_FAILURE => exact absurd hrc hwc
        | WC_SOFTWARE_BUG | WC_ERROR => exact hsmall _
      · rw [(hother conn heq).1]
        exact hsmall conn
    obtain ⟨hnone, hlast⟩ := ih hrest (fun conn => (hconn' conn).trans (hconn conn)) hsmall'
    exact ⟨List.forall_mem_cons.mpr ⟨hwc, hnone⟩, hlast⟩

/-- Among the completions taken for successes, one that is not has a later round and an earlier success of its
    connection in the batch. -/
theorem Agrees.harmless {ssn : Nat} (hok : Agrees .CTRL_QP .WC_SUCCESS (probe ssn) batch) {last : ibv_wc}
    (hlast : last ∈ batch) (hssn : last.wr_id.ssn = ssn) (hle : ∀ wc ∈ batch, wc.wr_id.ssn ≤ ssn)
    {before after : List ibv_wc} {wc : ibv_wc} (heq : batch = before ++ wc :: after) :
    handle_work_completion wc = .WC_SUCCESS ∨ Harmless batch before wc := by
  have hmem : wc ∈ batch := heq ▸ List.mem_append_right _ List.mem_cons_self
  have hstep := allOk_iff.mp hok before wc after heq
  have hbefore : Agrees .CTRL_QP .WC_SUCCESS (probe ssn) before := by
    rw [Agrees, heq] at hok
    exact hok.of_append
  obtain ⟨hnone, hsmall⟩ := hbefore.no_failure (fun _ => rfl) fun _ => by simp [probe]
  obtain hrc | ⟨hrc, hzero, hne⟩ :=
    ignored_of_success_eq ((probe_polled hle).connected_at heq) (hsmall _) hstep
  · exact .inl hrc
  · rw [(steps_empty_keeps .CTRL_QP (probe ssn) before).1] at hne
    have hstart : SuccessPolled [] (probe ssn) := fun _ hzero => absurd hzero (by simp [probe])
    have hearlier := steps_successPolled hstart hnone wc.wr_id.conn hzero
    refine .inr ⟨hrc, ⟨last, hlast, ?_⟩, hearlier⟩
    have hwc := hle wc hmem
    have : wc.wr_id.ssn ≠ ssn := hne
    omega

theorem exists_last_round (hne : batch ≠ []) : ∃ last ∈ batch, ∀ wc ∈ batch, wc.wr_id.ssn ≤ last.wr_id.ssn := by
  obtain ⟨last, hlast, hle⟩ := Finset.exists_max_image batch.toFinset (fun wc => wc.wr_id.ssn)
    (List.toFinset_nonempty_iff batch |>.mpr hne)
  exact ⟨last, List.mem_toFinset.mp hlast, fun wc hmem => hle wc (List.mem_toFinset.mpr hmem)⟩

theorem exists_polled (batch : List ibv_wc) : ∃ s, Polled s batch := by
  by_cases hne : batch = []
  · exact ⟨probe 0, probe_polled (by simp [hne])⟩
  · obtain ⟨last, -, hle⟩ := exists_last_round hne
    exact ⟨probe last.wr_id.ssn, probe_polled hle⟩

theorem shared_of_agrees (hall : ∀ s, Polled s batch → Agrees .CTRL_QP (first_rc batch) s batch) :
    StatusShared batch := by
  by_cases hne : batch = []
  · subst hne
    exact fun _ hmem => absurd hmem List.not_mem_nil
  · obtain ⟨last, hlast, hle⟩ := exists_last_round hne
    have hok := hall (probe last.wr_id.ssn) (probe_polled hle)
    rw [StatusShared]
    cases hfirst : first_rc batch with
    | WC_SUCCESS =>
      rw [hfirst] at hok
      exact fun before wc after heq => hok.harmless hlast rfl hle heq
    | WC_FAILURE =>
      rw [hfirst] at hok
      exact hok.old_of_failure (fun _ => rfl) (fun _ => Int.one_nonneg) last hlast rfl
    | WC_SOFTWARE_BUG | WC_ERROR =>
      exact hok.ignored (by simp [hfirst, Ignored]) (fun _ => rfl) fun _ => by simp [probe]

theorem counted_eq (hlen : batch.length < 256) : counted batch = batch := by
  rw [counted, Nat.mod_eq_of_lt hlen, List.take_length]

theorem length_of_length_counted (hlen : (counted batch).length = batch.length) : batch.length < 256 := by
  rw [counted, List.length_take] at hlen
  have := Nat.mod_lt batch.length (show 256 > 0 by omega)
  omega

/-- The waiting loops follow `empty_completion_queue` if each completion does the same in both. -/
theorem Agrees.states_eq (hok : Agrees qp rc s batch) (hs : Polled s batch) :
    states (wait_for_majority_completion qp rc) s batch = states (empty_completion_queue qp) s batch ∧
      states (wait_for_one_completion qp rc) s batch = states (empty_completion_queue qp) s batch := by
  refine ⟨states_eq_iff.mpr (allOk_iff.mpr fun before wc after heq => ?_), states_eq_iff.mpr hok⟩
  have hssn : wc.wr_id.ssn ≤ (run.steps (empty_completion_queue qp) s before).ssn := by
    rw [(steps_empty_keeps qp s before).1]
    exact hs.ssn_le wc (heq ▸ List.mem_append_right _ List.mem_cons_self)
  rw [wait_for_majority_eq_one hssn]
  exact allOk_iff.mp hok before wc after heq

end run_of_batch

/-- The waiting loops account for each completion of a batch as `empty_completion_queue` does if and only if the
    batch has at most 255 of them and none has a status whose effect differs from that of the first. -/
theorem accounts_each_iff (batch : List ibv_wc) :
    AccountsEach batch ↔ batch.length < 256 ∧ StatusShared batch := by
  constructor
  · intro hall
    have hlen : batch.length < 256 := by
      obtain ⟨s, hs⟩ := exists_polled batch
      have hstates := congrArg List.length (hall .CTRL_QP s hs).2
      rw [length_states, length_states] at hstates
      exact length_of_length_counted hstates
    refine ⟨hlen, shared_of_agrees fun s hs => ?_⟩
    have hstates := (hall .CTRL_QP s hs).2
    rw [counted_eq hlen] at hstates
    exact states_eq_iff.mp hstates
  · rintro ⟨hlen, hshared⟩ qp s hs
    rw [counted_eq hlen]
    exact (agrees_of_shared hshared hs).states_eq hs

/-- The failure of server 2 is taken for a success, as the send to server 1 succeeded. -/
theorem failure_counted_as_success :
    ¬ AccountsEach
      [{ wr_id := { ssn := 1, wa := false, tag := false, conn := 1 }, status := IBV_WC_SUCCESS },
       { wr_id := { ssn := 1, wa := false, tag := false, conn := 2 }, status := IBV_WC_RETRY_EXC_ERR }] := by
  intro hall
  have hstates := (hall .CTRL_QP (probe 1) (probe_polled (by simp))).1
  have hfailures := congrArg (List.map fun s => ((s.conns 2).fail_count, s.posted_sends 2)) hstates
  exact absurd hfailures (by decide)

end dare.rc
