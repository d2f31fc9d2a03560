import ReliableSocket.Dare.Rc.Completion

open run

namespace dare.rc

open rc_qp_state

/-- A work request in the send queue. The tag marks the special signaled request that flow control waits for. -/
inductive posted_wr_t where
  | unsignaled
  | signaled
  | tagged
deriving DecidableEq, Repr

/-- What `signaled_wr_id` of a queue pair holds: zero, or the special request with its tag, which is removed
    when its completion is found. -/
inductive signaled_wr_id_t where
  | none
  | tagged
  | untagged
deriving DecidableEq, Repr

/-- The bookkeeping of sends of one queue pair, with the requests posted after the last signaled completion that
    was polled. `wait_signaled_wr` is set while `post_send` waits for the special request. -/
structure send_queue_t where
  send_count : UInt32
  signaled_wr_id : signaled_wr_id_t
  state : rc_qp_state
  wait_signaled_wr : Bool
  queue : List posted_wr_t
deriving DecidableEq, Repr

/-- A post, a polled completion of the next signaled request, or the error completion of a request that is not
    signaled. -/
inductive send_action where
  | post_send (signaled : Bool)
  | poll (success : Bool)
  | flush
deriving DecidableEq, Repr

/-- The first signaled request and what was posted after it. -/
def next_signaled : List posted_wr_t → Option (posted_wr_t × List posted_wr_t)
  | [] => none
  | .unsignaled :: rest => next_signaled rest
  | .signaled :: rest => some (.signaled, rest)
  | .tagged :: rest => some (.tagged, rest)

/-- `rc_qp_restart` clears the queue and the bookkeeping. -/
def restart_qp (s : send_queue_t) : send_queue_t :=
  if s.state = RC_QP_ERROR then
    { s with send_count := 0, signaled_wr_id := .none, state := RC_QP_ACTIVE, queue := [] }
  else s

/-- What `WC_FAILURE` does to the state; `can_restart` as in `empty_completion_queue`. -/
def fail_qp (s : send_queue_t) (can_restart : Bool) : send_queue_t :=
  { s with
    state := if can_restart then RC_QP_ERROR else if s.state ≠ RC_QP_ERROR then RC_QP_BLOCKED else s.state }

/-- The special request is found: its tag is removed, a blocked queue pair can be restarted and nobody waits. -/
def find_signaled (s : send_queue_t) : send_queue_t :=
  { s with
    signaled_wr_id := .untagged
    state := if s.state = RC_QP_BLOCKED then RC_QP_ERROR else s.state
    wait_signaled_wr := false }

section queue_pair

variable (rc_max_send_wr : UInt32)

def quarter_queue : UInt32 := rc_max_send_wr >>> 2

def three_quarters_queue : UInt32 := (3 * rc_max_send_wr) >>> 2

/-- `post_send` up to the poll at its end. -/
def post_wr (s : send_queue_t) (signaled : Bool) : send_queue_t :=
  let send_count := s.send_count + 1
  let signaled_wr_id := if s.signaled_wr_id = .untagged then .none else s.signaled_wr_id
  if send_count = quarter_queue rc_max_send_wr ∧ signaled_wr_id = .none then
    { s with send_count := 0, signaled_wr_id := .tagged, queue := s.queue ++ [.tagged] }
  else
    { s with
      send_count
      signaled_wr_id
      wait_signaled_wr := decide (send_count = three_quarters_queue rc_max_send_wr ∧ signaled_wr_id ≠ .none)
      queue := s.queue ++ [if signaled then .signaled else .unsignaled] }

/-- A call waits for the special request if the queue pair is blocked, and at its end if the queue is full;
    another one is made only then. -/
def send_step (s : send_queue_t) : send_action → send_queue_t
  | .post_send signaled =>
    if s.wait_signaled_wr ∨ s.state = RC_QP_BLOCKED then s else post_wr rc_max_send_wr (restart_qp s) signaled
  | .poll success =>
    match next_signaled s.queue with
    | none => s
    | some (.tagged, rest) =>
      let found := find_signaled { s with queue := rest }
      if success then found else fail_qp found true
    | some (_, rest) =>
      let polled := { s with queue := rest }
      if success then polled else fail_qp polled (decide (s.signaled_wr_id = .none))
  | .flush => if .unsignaled ∈ s.queue then fail_qp s (decide (s.signaled_wr_id = .none)) else s

/-- When the number of sends reaches a quarter of the queue, the special request added before has completed. -/
def FoundInTime (s : send_queue_t) (a : send_action) : Prop :=
  match a with
  | .post_send _ =>
    s.state ≠ RC_QP_ERROR → s.send_count + 1 = quarter_queue rc_max_send_wr → s.signaled_wr_id ≠ .tagged
  | .poll _ => True
  | .flush => True

instance (s : send_queue_t) (a : send_action) : Decidable (FoundInTime rc_max_send_wr s a) :=
  match a with
  | .post_send _ => inferInstanceAs (Decidable (_ → _ → _))
  | .poll _ | .flush => isTrue trivial

end queue_pair

/-- A queue pair that was just connected. -/
def empty_send_queue : send_queue_t where
  send_count := 0
  signaled_wr_id := .none
  state := RC_QP_ACTIVE
  wait_signaled_wr := false
  queue := []

/-- The special request is in the queue while its tag is kept, with less than a quarter of the queue before it and
    at most the counted sends after it; without it the queue holds at most the counted sends. -/
structure Spaced (quarter : Nat) (s : send_queue_t) : Prop where
  count : s.send_count.toNat < quarter
  tagged : s.signaled_wr_id = .tagged → ∃ before after, s.queue = before ++ .tagged :: after ∧
    before.length < quarter ∧ after.length ≤ s.send_count.toNat ∧ .tagged ∉ before ∧ .tagged ∉ after
  found : s.signaled_wr_id ≠ .tagged → s.queue.length ≤ s.send_count.toNat ∧ .tagged ∉ s.queue

section spaced

variable {quarter : Nat} {s : send_queue_t} {rc_max_send_wr : UInt32}

theorem Spaced.length (hs : Spaced quarter s) : s.queue.length < 2 * quarter := by
  by_cases htag : s.signaled_wr_id = .tagged
  · obtain ⟨before, after, hqueue, hbefore, hafter, -⟩ := hs.tagged htag
    have := hs.count
    rw [hqueue, List.length_append, List.length_cons]
    omega
  · have := hs.count
    have := (hs.found htag).1
    omega

/-- Only what the queue holds, the counter and the special request matter. -/
theorem Spaced.congr {s' : send_queue_t} (hs : Spaced quarter s) (hcount : s'.send_count = s.send_count)
    (hsignaled : s'.signaled_wr_id = s.signaled_wr_id) (hqueue : s'.queue = s.queue) : Spaced quarter s' := by
  constructor
  · rw [hcount]
    exact hs.count
  · rw [hcount, hsignaled, hqueue]
    exact hs.tagged
  · rw [hcount, hsignaled, hqueue]
    exact hs.found

theorem next_signaled_suffix {queue rest : List posted_wr_t} {wr : posted_wr_t}
    (hnext : next_signaled queue = some (wr, rest)) : ∃ done, queue = done ++ wr :: rest ∧ wr ≠ .unsignaled := by
  induction queue with
  | nil => cases hnext
  | cons first more ih =>
    cases first with
    | unsignaled =>
      obtain ⟨done, hqueue, hne⟩ := ih hnext
      exact ⟨.unsignaled :: done, by rw [hqueue]; rfl, hne⟩
    | signaled =>
      cases hnext
      exact ⟨[], rfl, by decide⟩
    | tagged =>
      cases hnext
      exact ⟨[], rfl, by decide⟩

/-- In a queue with one tagged request, the next signaled one is it or comes before it. -/
theorem next_signaled_cases {before after rest : List posted_wr_t} {wr : posted_wr_t}
    (hbefore : .tagged ∉ before) (hnext : next_signaled (before ++ .tagged :: after) = some (wr, rest)) :
    wr = .tagged ∧ rest = after ∨
      wr = .signaled ∧ ∃ left, rest = left ++ .tagged :: after ∧ left.length ≤ before.length ∧ .tagged ∉ left := by
  induction before with
  | nil =>
    cases hnext
    exact .inl ⟨rfl, rfl⟩
  | cons first more ih =>
    obtain ⟨hfirst, hmore⟩ := List.ne_and_not_mem_of_not_mem_cons hbefore
    cases first with
    | unsignaled =>
      obtain hfound | ⟨hwr, left, hrest, hlength, hleft⟩ := ih hmore hnext
      · exact .inl hfound
      · exact .inr ⟨hwr, left, hrest, Nat.le_succ_of_le hlength, hleft⟩
    | signaled =>
      cases hnext
      exact .inr ⟨rfl, more, rfl, Nat.le_succ _, hmore⟩
    | tagged => exact absurd rfl hfirst

theorem Spaced.restart (hs : Spaced quarter s) : Spaced quarter (restart_qp s) := by
  rw [restart_qp]
  split
  · have := hs.count
    exact ⟨by simp only [UInt32.toNat_zero]; omega, (fun h => by cases h), fun _ => ⟨Nat.le_refl _, List.not_mem_nil⟩⟩
  · exact hs

theorem Spaced.fail (hs : Spaced quarter s) (can_restart : Bool) : Spaced quarter (fail_qp s can_restart) :=
  hs.congr rfl rfl rfl

/-- A completion leaves no more in the queue than before; that of the special request leaves what was posted
    after it. -/
theorem Spaced.poll (hs : Spaced quarter s) (success : Bool) :
    Spaced quarter (send_step rc_max_send_wr s (.poll success)) := by
  rw [send_step]
  split
  · exact hs
  · rename_i rest hnext
    have htag : s.signaled_wr_id = .tagged := by
      by_contra hnot
      obtain ⟨done, hqueue, -⟩ := next_signaled_suffix hnext
      exact (hs.found hnot).2 (by rw [hqueue]; simp)
    have hfound : Spaced quarter (find_signaled { s with queue := rest }) := by
      obtain ⟨before, after, hqueue, -, hafter, hbefore, htagged⟩ := hs.tagged htag
      rw [hqueue] at hnext
      obtain ⟨-, rfl⟩ | ⟨hwr, -⟩ := next_signaled_cases hbefore hnext
      · exact ⟨hs.count, (fun h => by cases h), fun _ => ⟨hafter, htagged⟩⟩
      · cases hwr
    split
    · exact hfound
    · exact hfound.fail true
  · rename_i wr rest hne hnext
    have hpolled : Spaced quarter { s with queue := rest } := by
      refine ⟨hs.count, fun htag => ?_, fun hnot => ?_⟩
      · obtain ⟨before, after, hqueue, hlength, hafter, hbefore, htagged⟩ := hs.tagged htag
        rw [hqueue] at hnext
        obtain ⟨hwr, -⟩ | ⟨-, left, hrest, hle, hleft⟩ := next_signaled_cases hbefore hnext
        · exact absurd hwr hne
        · exact ⟨left, after, hrest, Nat.lt_of_le_of_lt hle hlength, hafter, hleft, htagged⟩
      · obtain ⟨done, hqueue, -⟩ := next_signaled_suffix hnext
        obtain ⟨hlength, hnone⟩ := hs.found hnot
        rw [hqueue] at hlength hnone
        simp only [List.length_append, List.length_cons] at hlength
        exact ⟨by dsimp only; omega, fun hmem => hnone (by simp [hmem])⟩
    split
    · exact hpolled
    · exact hpolled.fail _

theorem quarter_queue_toNat (rc_max_send_wr : UInt32) :
    (quarter_queue rc_max_send_wr).toNat = rc_max_send_wr.toNat / 4 := by
  rw [quarter_queue, UInt32.toNat_shiftRight, Nat.shiftRight_eq_div_pow]
  rfl

/-- The count of sends before the counter is compared with a quarter of the queue. -/
theorem Spaced.next_count (hs : Spaced (rc_max_send_wr.toNat / 4) s) :
    (s.send_count + 1).toNat = s.send_count.toNat + 1 ∧
      (s.send_count + 1 = quarter_queue rc_max_send_wr ↔ s.send_count.toNat + 1 = rc_max_send_wr.toNat / 4) := by
  have hcount := hs.count
  have hmax := rc_max_send_wr.toNat_lt
  have hnext : (s.send_count + 1).toNat = s.send_count.toNat + 1 := by
    rw [UInt32.toNat_add, UInt32.toNat_one]
    omega
  refine ⟨hnext, ?_⟩
  rw [← UInt32.toNat_inj, quarter_queue_toNat, hnext]

theorem Spaced.post (hs : Spaced (rc_max_send_wr.toNat / 4) s) (signaled : Bool)
    (htime : s.send_count + 1 = quarter_queue rc_max_send_wr → s.signaled_wr_id ≠ .tagged) :
    Spaced (rc_max_send_wr.toNat / 4) (post_wr rc_max_send_wr s signaled) := by
  obtain ⟨hnext, hquarter⟩ := hs.next_count
  have hcount := hs.count
  by_cases hfull : s.send_count + 1 = quarter_queue rc_max_send_wr
  · -- the next special request is added
    have hnot := htime hfull
    have hnone : (if s.signaled_wr_id = .untagged then .none else s.signaled_wr_id) = signaled_wr_id_t.none := by
      cases hid : s.signaled_wr_id with
      | none | untagged => rfl
      | tagged => exact absurd hid hnot
    obtain ⟨hlength, htagged⟩ := hs.found hnot
    rw [post_wr, if_pos ⟨hfull, hnone⟩]
    refine ⟨by simp only [UInt32.toNat_zero]; omega, fun _ => ⟨s.queue, [], rfl, ?_, Nat.zero_le _, htagged,
      List.not_mem_nil⟩, fun h => absurd rfl h⟩
    omega
  · have hless : s.send_count.toNat + 1 < rc_max_send_wr.toNat / 4 := by
      have := mt hquarter.mpr hfull
      omega
    have hwr : .tagged ∉ [if signaled then posted_wr_t.signaled else .unsignaled] := by cases signaled <;> simp
    rw [post_wr, if_neg fun h => hfull h.1]
    refine ⟨by dsimp only; omega, fun htag => ?_, fun hnot => ?_⟩
    · have htag' : s.signaled_wr_id = .tagged := by
        dsimp only at htag
        split at htag
        · cases htag
        · exact htag
      obtain ⟨before, after, hqueue, hbefore, hafter, hfirst, hlast⟩ := hs.tagged htag'
      refine ⟨before, after ++ [if signaled then .signaled else .unsignaled], by simp [hqueue], hbefore, ?_, hfirst,
        fun hmem => (List.mem_append.mp hmem).elim hlast hwr⟩
      rw [List.length_append, List.length_singleton, hnext]
      omega
    · have hnot' : s.signaled_wr_id ≠ .tagged := by
        intro htag
        rw [htag] at hnot
        exact hnot rfl
      obtain ⟨hlength, htagged⟩ := hs.found hnot'
      refine ⟨?_, fun hmem => (List.mem_append.mp hmem).elim htagged hwr⟩
      rw [List.length_append, List.length_singleton, hnext]
      omega

theorem Spaced.step (hs : Spaced (rc_max_send_wr.toNat / 4) s) {a : send_action}
    (htime : FoundInTime rc_max_send_wr s a) :
    Spaced (rc_max_send_wr.toNat / 4) (send_step rc_max_send_wr s a) := by
  cases a with
  | post_send signaled =>
    rw [send_step]
    split
    · exact hs
    · refine hs.restart.post signaled fun hfull => ?_
      rw [restart_qp] at hfull ⊢
      split at hfull
      · rename_i herror
        rw [if_pos herror]
        exact fun h => by cases h
      · rename_i herror
        rw [if_neg herror]
        exact htime herror hfull
  | poll success => exact hs.poll success
  | flush =>
    rw [send_step]
    split
    · exact hs.fail _
    · exact hs

end spaced

/-- In every run in which the special request is found before the next one is due, the send queue holds at most
    `rc_max_send_wr` requests. -/
theorem send_queue_never_full (rc_max_send_wr : UInt32) (hsize : 4 ≤ rc_max_send_wr) (actions : List send_action)
    (htime : run.AllOk (send_step rc_max_send_wr) (FoundInTime rc_max_send_wr) empty_send_queue actions) :
    run.Always (send_step rc_max_send_wr) (fun s => s.queue.length ≤ rc_max_send_wr.toNat) empty_send_queue actions := by
  have hpos : 4 ≤ rc_max_send_wr.toNat := UInt32.le_iff_toNat_le.mp hsize
  have hempty : Spaced (rc_max_send_wr.toNat / 4) empty_send_queue := by
    refine ⟨?_, (fun h => by cases h), fun _ => ⟨Nat.le_refl _, List.not_mem_nil⟩⟩
    have : empty_send_queue.send_count.toNat = 0 := rfl
    omega
  refine run.AllOk.always (fun s a hs hok => hs.step hok) (fun s hs => ?_) hempty htime
  have := hs.length
  omega

/-- Sixteen places: the special request is the fourth, and is found after the seventh. -/
def found_early : List send_action :=
  List.replicate 7 (.post_send false) ++ [.poll true] ++ List.replicate 4 (.post_send true)

theorem found_early_never_full :
    run.Always (send_step 16) (fun s => s.queue.length ≤ (16 : UInt32).toNat) empty_send_queue found_early :=
  send_queue_never_full 16 (by decide) found_early (by decide)

/-- Four places: the first request is the special one, and the counter has passed a quarter when it is found. -/
theorem found_late_overflows :
    ¬ run.Always (send_step 4) (fun s => s.queue.length ≤ (4 : UInt32).toNat) empty_send_queue
      (List.replicate 4 (.post_send false) ++ [.poll true] ++ List.replicate 2 (.post_send false)) :=
  fun halways => absurd halways.last (by decide)

end dare.rc
