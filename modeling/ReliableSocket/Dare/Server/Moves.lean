import ReliableSocket.Dare.Server.Handlers

open dare.log dare.server

namespace dare.election

/-- The server that runs a handler in a step. -/
def actor : Action → Option Nat
  | .start i | .hb_receive_cb i _ | .hb_send_cb i _ | .to_adjust_cb i | .poll_vote_count i _ => some i
  | .poll_vote_requests i _ | .deliver i _ | .fail_ack i | .verify_leadership i _ _ => some i
  | .recover_log_cb i _ => some i
  | .connect .. | .log .. | .cid .. | .join .. => none

/-- The reasons for which a step may write a state identifier. -/
def causes : Action → List cause_t
  | .start _ => [.start_election, .alone]
  | .hb_receive_cb .. => [.start_election, .heartbeat]
  | .poll_vote_count .. => [.votes]
  | .poll_vote_requests .. => [.heartbeat, .vote, .decline]
  | .fail_ack _ | .recover_log_cb .. => [.start_election]
  | .verify_leadership .. => [.verification]
  | .join .. => [.recovery]
  | .hb_send_cb .. | .to_adjust_cb _ | .deliver .. | .connect .. | .log .. | .cid .. => []

section causes

variable (data : dare_server_data_t) (value : Nat)

theorem hb_receive_cb_causes {e : event_t} (he : e ∈ (hb_receive_cb data value).events) :
    e.cause ∈ causes (.hb_receive_cb data.idx value) := by
  unfold hb_receive_cb at he
  simp only at he
  split_ifs at he
  · cases he
  · cases List.mem_singleton.mp he
    exact List.mem_cons_self ..
  · rw [(server_to_follower_spec _ value _).2.1] at he
    cases List.mem_singleton.mp he
    exact List.mem_cons_of_mem _ (List.mem_singleton.mpr rfl)
  · cases List.mem_singleton.mp he
    exact List.mem_cons_of_mem _ (List.mem_singleton.mpr rfl)
  · cases he

theorem hb_send_cb_events : (hb_send_cb data value).events = [] := by
  unfold hb_send_cb
  simp only
  split_ifs
  · exact (server_to_follower_spec _ value _).2.1
  · rfl

theorem poll_vote_count_causes {e : event_t} (he : e ∈ (poll_vote_count data value).events) :
    e.cause = .votes := by
  unfold poll_vote_count at he
  simp only at he
  split_ifs at he
  · cases he
  · cases List.mem_singleton.mp he
    rfl
  · cases List.mem_singleton.mp he
    rfl

theorem poll_vote_requests_causes {e : event_t} (he : e ∈ (poll_vote_requests data value).events) :
    e.cause ∈ causes (.poll_vote_requests data.idx value) := by
  unfold poll_vote_requests at he
  simp only at he
  split_ifs at he
  · cases he
  · cases List.mem_singleton.mp he
    exact List.mem_cons_self ..
  · cases he
  · cases List.mem_singleton.mp he
    exact List.mem_cons_of_mem _ (List.mem_cons_of_mem _ (List.mem_singleton.mpr rfl))
  · rw [cast_vote_events] at he
    cases List.mem_singleton.mp he
    exact List.mem_cons_of_mem _ (List.mem_cons_self ..)

theorem rc_verify_leadership_causes (sids : List UInt64) {e : event_t}
    (he : e ∈ (rc_verify_leadership data sids value).events) : e.cause = .verification := by
  unfold rc_verify_leadership at he
  simp only at he
  split_ifs at he
  · rw [(server_to_follower_spec _ value _).2.1] at he
    cases List.mem_singleton.mp he
    rfl
  · cases he

theorem recover_log_cb_causes {e : event_t} (he : e ∈ (recover_log_cb data value).events) :
    e.cause = .start_election := by
  unfold recover_log_cb at he
  split_ifs at he
  · cases List.mem_singleton.mp he
    rfl
  · rw [(server_to_follower_spec _ value _).2.1] at he
    cases he

end causes

/-- A handler writes once at most; the reason tells what it has found. -/
theorem Written.event {data : dare_server_data_t} {r : handled} (hwritten : Written data r) {e : event_t}
    (he : e ∈ r.events) :
    r.events = [e] ∧ e = ⟨data.idx, e.cause, r.data.sid⟩ ∧ e.cause ≠ .alone ∧
      (e.cause = .start_election → ∀ i < get_group_size data.cid, r.data.vote_ack i = data.log.len) ∧
      (e.cause = .votes →
        IS_CANDIDATE data = true ∧ has_majority data = true ∧ r.data.sid = SID_SET_L data.sid) := by
  have hsingle : ∀ {e' : event_t}, r.events = [e'] → e = e' := by
    intro e' hevents
    rw [hevents] at he
    exact List.mem_singleton.mp he
  cases hwritten with
  | kept hevents =>
    rw [hevents] at he
    cases he
  | started hevents hsid hcleared =>
    cases hsingle hevents
    exact ⟨hevents, by rw [hsid]; rfl, nofun, fun _ => hcleared, nofun⟩
  | voted i hevents =>
    cases hsingle hevents
    exact ⟨hevents, rfl, nofun, nofun, nofun⟩
  | declined i hevents =>
    cases hsingle hevents
    exact ⟨hevents, rfl, nofun, nofun, nofun⟩
  | promoted hevents hcandidate hmajority hsid =>
    cases hsingle hevents
    exact ⟨hevents, rfl, nofun, nofun, fun _ => ⟨hcandidate, hmajority, hsid⟩⟩
  | adopted hevents =>
    cases hsingle hevents
    exact ⟨hevents, rfl, nofun, nofun, nofun⟩
  | followed hevents =>
    cases hsingle hevents
    exact ⟨hevents, rfl, nofun, nofun, nofun⟩
  | verified hevents =>
    cases hsingle hevents
    exact ⟨hevents, rfl, nofun, nofun, nofun⟩

/-- What a step can do: run a handler, whose effects on the others are those of its contract; start a
    server that is alone; execute a write; change what the election does not look at, or a configuration;
    or let a server join. -/
inductive Move (g : group_t) : Action → group_t → Prop where
  | idle {a : Action} : Move g a g
  | handle {a : Action} {i : Nat} {r : handled} {g' : group_t} (hactor : actor a = some i)
      (hruns : g.mode i ≠ .starting ∨
        i < get_group_size (g.server i).cid ∧ r = start_election (g.server i))
      (hcontract : Contract (g.server i) r) (hcause : ∀ e ∈ r.events, e.cause ∈ causes a)
      (hserver : g'.server = Function.update g.server i r.data) (hmode : ∀ k ≠ i, g'.mode k = g.mode k)
      (hwire : ∀ k l w, w ∈ g'.wire k l → w ∈ g.wire k l ∨ k = i ∧ (l, w) ∈ r.posted)
      (htrace : g'.trace = r.events ++ g.trace) : Move g a g'
  | alone {i : Nat} {g' : group_t} (hlt : i < get_group_size (g.server i).cid)
      (hsize : (g.server i).cid.size_0 = 1) (hsid : (g.server i).sid = SID_NULL)
      (hserver : g'.server = Function.update g.server i { g.server i with sid := alone_sid (g.server i) })
      (hmode : g'.mode = g.mode) (hwire : g'.wire = g.wire)
      (htrace : g'.trace = ⟨i, .alone, alone_sid (g.server i)⟩ :: g.trace) : Move g (.start i) g'
  | deliver {i j : Nat} {w : ctrl_write} {rest : List ctrl_write} {g' : group_t}
      (hhead : g.wire i j = w :: rest)
      (hserver : ∀ k,
        SameControl (Function.update g.server j (receive (g.server j) i w) k) (g'.server k))
      (hmode : ∀ k, g.mode k = .starting → g'.mode k = .starting)
      (hwire : ∀ k l, ∀ w ∈ g'.wire k l, w ∈ g.wire k l) (htrace : g'.trace = g.trace) :
      Move g (.deliver i j) g'
  | change {a : Action} {i : Nat} {data : dare_server_data_t}
      (hsame : SameControl (g.server i) data ∨
        ∃ cid, a = .cid i cid ∧ SameControl { g.server i with cid := cid } data) :
      Move g a (set_data g i data)
  | join {i : Nat} {cid : dare_cid_t} {sid : UInt64} {log : dare_log_t} :
      Move g (.join i cid sid log) (join g i cid sid log)

section moves

variable {g : group_t} {a : Action} {i : Nat} {r : handled}

@[simp] theorem handle_server_self (g : group_t) (i : Nat) (r : handled) :
    (handle g i r).server i = r.data := by
  simp [handle]

@[simp] theorem handle_mode_self (g : group_t) (i : Nat) (r : handled) : (handle g i r).mode i = r.mode := by
  simp [handle]

theorem handle_server_of_ne {k : Nat} (hk : k ≠ i) : (handle g i r).server k = g.server k :=
  Function.update_of_ne hk ..

theorem handle_mode_of_ne {k : Nat} (hk : k ≠ i) : (handle g i r).mode k = g.mode k :=
  Function.update_of_ne hk ..

theorem mem_wire_handle {k l : Nat} {w : ctrl_write} (hmem : w ∈ (handle g i r).wire k l) :
    w ∈ g.wire k l ∨ k = i ∧ (l, w) ∈ r.posted := by
  by_cases hk : k = i
  · subst hk
    simp only [handle, Function.update_self, List.mem_append, List.mem_map, List.mem_filter,
      decide_eq_true_eq, Prod.exists, exists_eq_right] at hmem
    obtain hold | hposted := hmem
    · exact .inl hold
    · exact .inr ⟨rfl, hposted⟩
  · simp only [handle, Function.update_of_ne hk] at hmem
    exact .inl hmem

theorem move_handle (hactor : actor a = some i) (hruns : g.mode i ≠ .starting)
    (hcontract : Contract (g.server i) r) (hcause : ∀ e ∈ r.events, e.cause ∈ causes a) :
    Move g a (handle g i r) :=
  .handle hactor (.inl hruns) hcontract hcause rfl (fun _ => handle_mode_of_ne)
    (fun _ _ _ => mem_wire_handle) rfl

theorem move_run_handler {handler : dare_server_data_t → handled} (hactor : actor a = some i)
    (hcontract : Contract (g.server i) (handler (g.server i)))
    (hcause : ∀ e ∈ (handler (g.server i)).events, e.cause ∈ causes a) :
    Move g a (run_handler g i handler) := by
  unfold run_handler
  split_ifs with hmode
  · exact move_handle hactor (by rw [hmode]; exact mode_t.noConfusion) hcontract hcause
  · exact .idle

theorem move_start (g : group_t) (i : Nat) : Move g (.start i) (start g i) := by
  unfold start
  simp only
  split_ifs with hstarts hsize
  · exact .alone hstarts.2.2 hsize hstarts.2.1 rfl (by simp [handle, ← hstarts.1])
      (by funext k l; by_cases hk : k = i <;> simp [handle, hk]) rfl
  · refine .handle rfl (.inr ⟨hstarts.2.2, rfl⟩) (contract_start_election _) (fun e he => ?_) rfl
      (fun _ => handle_mode_of_ne) (fun _ _ _ => mem_wire_handle) rfl
    cases List.mem_singleton.mp he
    exact List.mem_cons_self ..
  · exact .idle

theorem mem_wire_taken {i j k l : Nat} {rest : List ctrl_write} {w : ctrl_write}
    (hrest : ∀ w ∈ rest, w ∈ g.wire i j)
    (hmem : w ∈ Function.update g.wire i (Function.update (g.wire i) j rest) k l) : w ∈ g.wire k l := by
  by_cases hk : k = i
  · subst hk
    rw [Function.update_self] at hmem
    by_cases hl : l = j
    · subst hl
      rw [Function.update_self] at hmem
      exact hrest w hmem
    · rwa [Function.update_of_ne hl] at hmem
  · rwa [Function.update_of_ne hk] at hmem

theorem move_deliver (g : group_t) (i j : Nat) : Move g (.deliver i j) (deliver g i j) := by
  unfold deliver
  cases hhead : g.wire i j with
  | nil => exact .idle
  | cons w rest =>
    have hrest : ∀ w' ∈ rest, w' ∈ g.wire i j := fun w' hmem => hhead ▸ List.mem_cons_of_mem w hmem
    have hplain : Move g (.deliver i j) { g with
        server := Function.update g.server j (receive (g.server j) i w)
        wire := Function.update g.wire i (Function.update (g.wire i) j rest) } :=
      .deliver hhead (fun _ => .refl _) (fun _ h => h) (fun _ _ _ => mem_wire_taken hrest) rfl
    cases w with
    | hb sid => exact hplain
    | vote_req request => exact hplain
    | vote_ack commit =>
      simp only
      split_ifs with hwaits
      · -- the voter starts its timer
        refine .deliver hhead (fun k => ?_) (fun k hk => ?_) (fun k l w hmem => ?_) rfl
        · by_cases hk : k = i
          · subst hk
            simp only [handle, vote_ack_sent, if_true, continues, Function.update_self]
            exact ⟨⟨rfl, rfl, rfl, rfl, rfl⟩, rfl, rfl, rfl⟩
          · simp only [handle, Function.update_of_ne hk]
            exact .refl _
        · have hne : k ≠ i := by
            rintro rfl
            rw [hwaits] at hk
            cases hk
          exact (handle_mode_of_ne hne).trans hk
        · obtain hold | ⟨-, hposted⟩ := mem_wire_handle hmem
          · exact mem_wire_taken hrest hold
          · cases hposted
      · exact hplain

theorem move_fail_ack (g : group_t) (i : Nat) : Move g (.fail_ack i) (fail_ack g i) := by
  unfold fail_ack
  cases hmode : g.mode i with
  | waiting j =>
    refine .handle rfl (.inl (by rw [hmode]; exact mode_t.noConfusion))
      (contract_vote_ack_sent (g.server i) false) (fun e he => ?_) rfl
      (fun _ => handle_mode_of_ne) (fun k l w hmem => ?_) rfl
    · cases List.mem_singleton.mp he
      exact List.mem_cons_self ..
    · exact (mem_wire_handle hmem).imp_left (mem_wire_taken fun w hw => by cases hw)
  | starting => exact .idle
  | recovering => exact .idle
  | running => exact .idle
  | exited => exact .idle

theorem step_move (g : group_t) (a : Action) : Move g a (step g a) := by
  cases a with
  | start i => exact move_start g i
  | hb_receive_cb i value =>
    simp only [step]
    split_ifs
    · exact move_run_handler rfl (contract_hb_receive_cb _ value) fun e he =>
        hb_receive_cb_causes (g.server i) value he
    · exact .idle
  | hb_send_cb i value =>
    simp only [step]
    split_ifs
    · refine move_run_handler rfl (contract_hb_send_cb _ value) fun e he => ?_
      rw [hb_send_cb_events] at he
      cases he
    · exact .idle
  | to_adjust_cb i =>
    rw [step]
    exact move_run_handler rfl (contract_to_adjust_cb _) fun e he => by cases he
  | poll_vote_count i value =>
    simp only [step]
    split_ifs with hcandidate
    · refine move_run_handler rfl (contract_poll_vote_count hcandidate value) fun e he => ?_
      rw [poll_vote_count_causes (g.server i) value he]
      exact List.mem_cons_self ..
    · exact .idle
  | poll_vote_requests i value =>
    rw [step]
    exact move_run_handler rfl (contract_poll_vote_requests _ value) fun e he =>
      poll_vote_requests_causes (g.server i) value he
  | deliver i j => exact move_deliver g i j
  | fail_ack i => exact move_fail_ack g i
  | connect i j connected => exact .change (.inl (sameControl_servers _ _))
  | log i log => exact .change (.inl ⟨⟨rfl, rfl, rfl, rfl, rfl⟩, rfl, rfl, rfl⟩)
  | cid i cid => exact .change (.inr ⟨cid, rfl, .refl _⟩)
  | verify_leadership i sids value =>
    rw [step]
    refine move_run_handler rfl (contract_verify_leadership _ sids value) fun e he => ?_
    rw [rc_verify_leadership_causes (g.server i) value sids he]
    exact List.mem_cons_self ..
  | join i cid sid log => exact .join
  | recover_log_cb i value =>
    simp only [step]
    split_ifs with hmode
    · refine move_handle rfl (by rw [hmode]; exact mode_t.noConfusion)
        (contract_recover_log_cb _ value) fun e he => ?_
      rw [recover_log_cb_causes (g.server i) value he]
      exact List.mem_cons_self ..
    · exact .idle

/-- No write to a state identifier is forgotten. -/
theorem trace_subset (g : group_t) (a : Action) : ∀ e ∈ g.trace, e ∈ (step g a).trace := by
  have hmove := step_move g a
  generalize step g a = g' at hmove ⊢
  intro e he
  cases hmove with
  | idle => exact he
  | handle hactor hruns hcontract hcause hserver hmode hwire htrace =>
    rw [htrace]
    exact List.mem_append_right _ he
  | alone hlt hsize hsid hserver hmode hwire htrace =>
    rw [htrace]
    exact List.mem_cons_of_mem _ he
  | deliver hhead hserver hmode hwire htrace =>
    rw [htrace]
    exact he
  | change hsame => exact he
  | join => exact List.mem_cons_of_mem _ he

theorem trace_subset_steps (g : group_t) (actions : List Action) :
    ∀ e ∈ g.trace, e ∈ (run.steps step g actions).trace := by
  have hkeeps : ∀ (g' : group_t) (a : Action), (∀ e ∈ g.trace, e ∈ g'.trace) →
      ∀ e ∈ g.trace, e ∈ (step g' a).trace :=
    fun g' a hsubset e he => trace_subset g' a e (hsubset e he)
  exact run.steps_invariant hkeeps (fun _ he => he) actions

end moves

/-- What the election finds in the data of a new server. -/
theorem init_server_data_spec {i : Nat} {group_size : UInt8} {data : dare_server_data_t}
    (hinit : init_server_data i group_size = some data) :
    data.idx = i ∧ data.sid = SID_NULL ∧ (∀ k, (data.vote_req k).sid = 0) ∧ (∀ k, data.hb k = 0) ∧
      data.latest_hb_received = 0 := by
  unfold init_server_data at hinit
  split_ifs at hinit
  rw [← Option.some.inj hinit]
  exact ⟨rfl, rfl, fun _ => rfl, fun _ => rfl, rfl⟩

theorem init_server_data_of_three (i : Nat) : (init_server_data i 3).isSome = true := by
  unfold init_server_data
  rw [if_neg (by decide)]
  rfl

/-- A server of a group of three. -/
def server_of_three (i : Nat) : dare_server_data_t :=
  (init_server_data i 3).get (init_server_data_of_three i)

theorem server_of_three_init (i : Nat) : init_server_data i 3 = some (server_of_three i) :=
  (Option.some_get _).symm

def group_of_three : group_t := group_init 3 server_of_three server_of_three_init

end dare.election
