import ReliableSocket.Dare.Server.Terms

open dare.log dare.server run

namespace dare.election

/-- Server `i` has held an election for the term, after its last recovery. -/
def ElectionHeld (i : Nat) (term : UInt64) : List event_t → Prop
  | [] => False
  | e :: trace =>
    e.server = i ∧ e.cause = .start_election ∧ SID_GET_TERM e.sid = term ∨
      ¬(e.server = i ∧ e.cause = .recovery) ∧ ElectionHeld i term trace

/-- Whoever has become leader by votes has held an election for the same term before. -/
def ElectedFirst : List event_t → Prop
  | [] => True
  | e :: trace =>
    (e.cause = .votes → ElectionHeld e.server (SID_GET_TERM e.sid) trace) ∧ ElectedFirst trace

instance decidableElectionHeld (i : Nat) (term : UInt64) :
    ∀ trace, Decidable (ElectionHeld i term trace)
  | [] => inferInstanceAs (Decidable False)
  | _ :: trace =>
    have := decidableElectionHeld i term trace
    inferInstanceAs (Decidable (_ ∨ _))

instance decidableElectedFirst : ∀ trace, Decidable (ElectedFirst trace)
  | [] => inferInstanceAs (Decidable True)
  | _ :: trace =>
    have := decidableElectedFirst trace
    inferInstanceAs (Decidable (_ ∧ _))

/-- The last write to the state identifier of server `i`. -/
def last_write (trace : List event_t) (i : Nat) : Option event_t := trace.find? fun e => e.server = i

/-- Server `i` has its state identifier from `start_election`. -/
def HasStarted (g : group_t) (i : Nat) : Prop :=
  last_write g.trace i = some ⟨i, .start_election, (g.server i).sid⟩

instance (g : group_t) (i : Nat) : Decidable (HasStarted g i) := inferInstanceAs (Decidable (_ = _))

/-- If the server is a candidate, the vote ACKs in its array are no majority. -/
def LacksVotes (data : dare_server_data_t) : Prop := IS_CANDIDATE data = true → has_majority data = false

instance (data : dare_server_data_t) : Decidable (LacksVotes data) := inferInstanceAs (Decidable (_ → _))

/-- Only `start_election` clears the array of vote ACKs. A server that becomes a candidate without it, since
    it declines to vote, takes over a heartbeat or joins, lacks the votes with what is left in the array, and
    neither the vote ACKs that reach it later nor a new configuration make them a majority. -/
def NoLeftoverVotes (g : group_t) : Action → Prop
  | .poll_vote_requests i value =>
    g.mode i = .running → (poll_vote_requests (g.server i) value).events ≠ [] →
      LacksVotes (poll_vote_requests (g.server i) value).data
  | .deliver i j => ¬HasStarted g j → ∀ w ∈ (g.wire i j).head?, LacksVotes (receive (g.server j) i w)
  | .cid i cid => ¬HasStarted g i → LacksVotes { g.server i with cid := cid }
  | .join i cid sid log => LacksVotes (joined_data i cid sid log)
  | _ => True

section held

variable {i : Nat} {term : UInt64} {trace : List event_t}

theorem ElectionHeld.cons {e : event_t} (h : ElectionHeld i term trace)
    (he : ¬(e.server = i ∧ e.cause = .recovery)) : ElectionHeld i term (e :: trace) := .inr ⟨he, h⟩

theorem last_write_cons_self {e : event_t} (he : e.server = i) : last_write (e :: trace) i = some e :=
  List.find?_cons_of_pos (by simpa using he)

theorem last_write_cons_of_ne {e : event_t} (he : e.server ≠ i) : last_write (e :: trace) i = last_write trace i :=
  List.find?_cons_of_neg (by simpa using he)

/-- Whoever has its state identifier from `start_election` has held an election for its term. -/
theorem electionHeld_of_last_write {sid : UInt64} (hlast : last_write trace i = some ⟨i, .start_election, sid⟩) :
    ElectionHeld i (SID_GET_TERM sid) trace := by
  induction trace with
  | nil => cases hlast
  | cons e trace ih =>
    by_cases he : e.server = i
    · rw [last_write_cons_self he] at hlast
      obtain rfl := Option.some.inj hlast
      exact .inl ⟨rfl, rfl, rfl⟩
    · rw [last_write_cons_of_ne he] at hlast
      exact (ih hlast).cons fun hrecovery => he hrecovery.1

end held

/-- A candidate has started its election, or lacks the votes. -/
structure Backed (g : group_t) : Prop where
  idx : ∀ i, (g.server i).idx = i
  backed : ∀ i, HasStarted g i ∨ LacksVotes (g.server i)
  elected : ElectedFirst g.trace

section steps

variable {g g' : group_t} {a : Action} {i : Nat} {r : handled} {data data' : dare_server_data_t}

theorem LacksVotes.congr (h : LacksVotes data) (hsame : SameBallot data data') : LacksVotes data' := by
  rw [LacksVotes, hsame.is_candidate, hsame.has_majority]
  exact h

theorem lacksVotes_of_leader (hl : SID_GET_L data.sid = true) : LacksVotes data := by
  intro hcandidate
  simp [IS_CANDIDATE, hl] at hcandidate

theorem lacksVotes_of_null (hsid : data.sid = SID_NULL) : LacksVotes data := by
  have hl : SID_GET_L SID_NULL = false := by decide
  have hterm : SID_GET_TERM SID_NULL = 0 := by decide
  intro hcandidate
  simp [IS_CANDIDATE, IS_NONE, hsid, hl, hterm] at hcandidate

theorem HasStarted.congr {k : Nat} (h : HasStarted g k) (hlast : last_write g'.trace k = last_write g.trace k)
    (hsid : (g'.server k).sid = (g.server k).sid) : HasStarted g' k := by
  rw [HasStarted, hlast, hsid]
  exact h

/-- Steps of which server `k` sees nothing. -/
theorem Backed.kept (hg : Backed g) {k : Nat} (hlast : last_write g'.trace k = last_write g.trace k)
    (hsame : SameBallot (g.server k) (g'.server k)) : HasStarted g' k ∨ LacksVotes (g'.server k) :=
  (hg.backed k).imp (fun h => h.congr hlast hsame.sid) fun h => h.congr hsame

/-- A handler that writes a state identifier starts an election, or leaves a server that lacks the
    votes. -/
theorem Backed.after_handler (hg : Backed g) (hcontract : Contract (g.server i) r)
    (hwrites : r.events ≠ [] → r.events = [election_event (g.server i)] ∨ LacksVotes r.data)
    (hserver : g'.server = Function.update g.server i r.data) (htrace : g'.trace = r.events ++ g.trace) :
    Backed g' := by
  have hidx := hg.idx i
  have hself : g'.server i = r.data := by rw [hserver, Function.update_self]
  have hother : ∀ k, k ≠ i → g'.server k = g.server k := fun k hk => by
    rw [hserver, Function.update_of_ne hk]
  have hidx' : ∀ k, (g'.server k).idx = k := by
    intro k
    by_cases hk : k = i
    · rw [hk, hself, hcontract.idx, hidx]
    · rw [hother k hk, hg.idx]
  by_cases hevents : r.events = []
  · rw [hevents, List.nil_append] at htrace
    refine ⟨hidx', fun k => hg.kept (by rw [htrace]) ?_, htrace ▸ hg.elected⟩
    by_cases hk : k = i
    · rw [hk, hself]
      exact hcontract.sameBallot hevents
    · rw [hother k hk]
      exact .refl _
  · obtain ⟨e, he⟩ := List.exists_mem_of_ne_nil _ hevents
    obtain ⟨hsingle, hevent, -, -, hpromoted⟩ := hcontract.sid.event he
    have hwriter : e.server = i := by rw [hevent, hidx]
    rw [hsingle, List.singleton_append] at htrace
    refine ⟨hidx', fun k => ?_, ?_⟩
    · by_cases hk : k = i
      · subst hk
        rw [hself]
        refine (hwrites hevents).imp_left fun hstarted => ?_
        rw [hsingle] at hstarted
        have hcause : e.cause = .start_election := by
          rw [List.singleton_inj.mp hstarted]
          rfl
        rw [HasStarted, htrace, last_write_cons_self hwriter, hself, hevent, hidx, hcause]
      · refine hg.kept ?_ (by rw [hother k hk]; exact .refl _)
        rw [htrace, last_write_cons_of_ne (by rw [hwriter]; exact Ne.symm hk)]
    · rw [htrace]
      refine ⟨fun hvotes => ?_, hg.elected⟩
      -- the votes of a server that has not started an election are no majority
      obtain ⟨hcandidate, hmajority, hsid⟩ := hpromoted hvotes
      have hstarted : HasStarted g i := by
        refine (hg.backed i).resolve_right fun hlacks => ?_
        rw [hlacks hcandidate] at hmajority
        cases hmajority
      rw [hwriter, show e.sid = SID_SET_L (g.server i).sid by rw [hevent, hsid], (sid_set_l_fields _).1]
      exact electionHeld_of_last_write hstarted

/-- Other handlers than those that look at heartbeats and requests only write the state identifier of an
    election or of a leader. -/
theorem Written.lacksVotes (hwritten : Written data r)
    (hcause : ∀ e ∈ r.events, e.cause ≠ .heartbeat ∧ e.cause ≠ .vote ∧ e.cause ≠ .decline)
    (hevents : r.events ≠ []) : r.events = [election_event data] ∨ LacksVotes r.data := by
  have hone : ∀ {e : event_t}, r.events = [e] → e.cause ≠ .heartbeat ∧ e.cause ≠ .vote ∧ e.cause ≠ .decline :=
    fun h => hcause _ (h ▸ List.mem_singleton_self _)
  cases hwritten with
  | kept hnone => exact absurd hnone hevents
  | started hstarted => exact .inl hstarted
  | voted k hvoted => exact absurd rfl (hone hvoted).2.1
  | declined k hdeclined => exact absurd rfl (hone hdeclined).2.2
  | promoted hvotes hcandidate hmajority hsid =>
    exact .inr (lacksVotes_of_leader (by rw [hsid]; exact (sid_set_l_fields _).2.1))
  | adopted hadopted => exact absurd rfl (hone hadopted).1
  | followed hfollowed hbetter hl => exact .inr (lacksVotes_of_leader hl)
  | verified hverified hbetter hl => exact .inr (lacksVotes_of_leader hl)

/-- A server that follows a heartbeat in `hb_receive_cb` follows a leader. -/
theorem hb_receive_cb_lacksVotes (data : dare_server_data_t) (value : Nat)
    (hevents : (hb_receive_cb data value).events ≠ []) :
    (hb_receive_cb data value).events = [election_event data] ∨ LacksVotes (hb_receive_cb data value).data := by
  have hscan := scanned_loop data
  unfold hb_receive_cb at hevents ⊢
  simp only at hevents ⊢
  split_ifs at hevents ⊢ with hmember htimeout hnew hterm
  · exact absurd rfl hevents
  · left
    rw [← hscan.dropped.election_event]
    rfl
  · have hsame := (server_to_follower_spec { (hb_receive_loop data).data with sid := (hb_receive_loop data).new_sid }
      value [⟨data.idx, .heartbeat, (hb_receive_loop data).new_sid⟩]).1
    exact .inr (lacksVotes_of_leader (by rw [hsame.sid]; exact (hscan.better hnew).2.1))
  · exact .inr (lacksVotes_of_leader (hscan.better hnew).2.1)
  · exact absurd rfl hevents

theorem Backed.after_run_handler (hg : Backed g) {handler : dare_server_data_t → handled}
    (hcontract : Contract (g.server i) (handler (g.server i)))
    (hwrites : g.mode i = .running → (handler (g.server i)).events ≠ [] →
      (handler (g.server i)).events = [election_event (g.server i)] ∨
        LacksVotes (handler (g.server i)).data) : Backed (run_handler g i handler) := by
  unfold run_handler
  split_ifs with hmode
  · exact hg.after_handler hcontract (hwrites hmode) rfl rfl
  · exact hg

theorem Backed.delivered (hg : Backed g) {j : Nat} {w : ctrl_write} {rest : List ctrl_write}
    (hhead : g.wire i j = w :: rest) (hok : NoLeftoverVotes g (.deliver i j))
    (hserver : ∀ k, SameControl (Function.update g.server j (receive (g.server j) i w) k) (g'.server k))
    (htrace : g'.trace = g.trace) : Backed g' := by
  obtain ⟨hidx, hsid, -⟩ := receive_spec (g.server j) i w
  have hself := hserver j
  rw [Function.update_self] at hself
  have hother : ∀ k, k ≠ j → SameControl (g.server k) (g'.server k) := fun k hk => by
    have hsame := hserver k
    rwa [Function.update_of_ne hk] at hsame
  refine ⟨fun k => ?_, fun k => ?_, htrace ▸ hg.elected⟩
  · by_cases hk : k = j
    · rw [hk, hself.idx, hidx, hg.idx]
    · rw [(hother k hk).idx, hg.idx]
  · by_cases hk : k = j
    · subst hk
      by_cases hstarted : HasStarted g k
      · exact .inl (hstarted.congr (by rw [htrace]) (hself.sid.trans hsid))
      · exact .inr ((hok hstarted w (by rw [hhead]; rfl)).congr hself.toSameBallot)
    · exact hg.kept (by rw [htrace]) (hother k hk).toSameBallot

theorem Backed.joined (hg : Backed g) {cid : dare_cid_t} {sid : UInt64} {log : dare_log_t}
    (hok : NoLeftoverVotes g (.join i cid sid log)) : Backed (join g i cid sid log) := by
  have hself : (join g i cid sid log).server i = joined_data i cid sid log := by simp [join]
  have hother : ∀ k, k ≠ i → (join g i cid sid log).server k = g.server k := by
    intro k hk
    simp [join, hk]
  refine ⟨fun k => ?_, fun k => ?_, nofun, hg.elected⟩
  · by_cases hk : k = i
    · subst hk
      rw [hself]
      rfl
    · rw [hother k hk, hg.idx]
  · by_cases hk : k = i
    · rw [hk, hself]
      exact .inr hok
    · refine hg.kept (last_write_cons_of_ne (Ne.symm hk)) ?_
      rw [hother k hk]
      exact .refl _

theorem Backed.changed (hg : Backed g)
    (hsame : SameControl (g.server i) data ∨
      ∃ cid, NoLeftoverVotes g (.cid i cid) ∧ SameControl { g.server i with cid := cid } data) :
    Backed (set_data g i data) := by
  have hself : (set_data g i data).server i = data := by simp [set_data]
  have hother : ∀ k, k ≠ i → (set_data g i data).server k = g.server k := by
    intro k hk
    simp [set_data, hk]
  have hidx : data.idx = (g.server i).idx := by
    obtain hsame | ⟨cid, -, hsame⟩ := hsame
    · exact hsame.idx
    · exact hsame.idx
  refine ⟨fun k => ?_, fun k => ?_, hg.elected⟩
  · by_cases hk : k = i
    · rw [hk, hself, hidx, hg.idx]
    · rw [hother k hk, hg.idx]
  · by_cases hk : k = i
    · subst hk
      obtain hsame | ⟨cid, hok, hsame⟩ := hsame
      · refine hg.kept rfl ?_
        rw [hself]
        exact hsame.toSameBallot
      · by_cases hstarted : HasStarted g k
        · refine .inl (hstarted.congr rfl ?_)
          rw [hself, hsame.sid]
        · rw [hself]
          exact .inr ((hok hstarted).congr hsame.toSameBallot)
    · refine hg.kept rfl ?_
      rw [hother k hk]
      exact .refl _

/-- The moves of all steps in which a server does not look at heartbeats or requests. -/
theorem Backed.after_move (hg : Backed g) (hmove : Move g a g') (hok : NoLeftoverVotes g a)
    (hcauses : ∀ cause ∈ causes a, cause ≠ .heartbeat ∧ cause ≠ .vote ∧ cause ≠ .decline) : Backed g' := by
  cases hmove with
  | idle => exact hg
  | handle hactor hruns hcontract hcause hserver hmode hwire htrace =>
    exact hg.after_handler hcontract (hcontract.sid.lacksVotes fun e he => hcauses _ (hcause e he)) hserver
      htrace
  | @alone i _ hlt hsize hsid hserver hmode hwire htrace =>
    refine ⟨fun k => ?_, fun k => ?_, ?_⟩
    · rw [hserver]
      by_cases hk : k = i
      · subst hk
        rw [Function.update_self]
        exact hg.idx k
      · rw [Function.update_of_ne hk, hg.idx]
    · by_cases hk : k = i
      · rw [hk, hserver, Function.update_self]
        exact .inr (lacksVotes_of_leader (alone_sid_spec hsid).2.1)
      · refine hg.kept (htrace ▸ last_write_cons_of_ne (Ne.symm hk)) ?_
        rw [hserver, Function.update_of_ne hk]
        exact .refl _
    · rw [htrace]
      exact ⟨nofun, hg.elected⟩
  | deliver hhead hserver hmode hwire htrace => exact hg.delivered hhead hok hserver htrace
  | change hsame =>
    refine hg.changed (hsame.imp_right fun hcid => ?_)
    obtain ⟨cid, rfl, hchanged⟩ := hcid
    exact ⟨cid, hok, hchanged⟩
  | join => exact hg.joined hok

theorem Backed.after_step (hg : Backed g) (hok : NoLeftoverVotes g a) : Backed (step g a) := by
  cases a with
  | poll_vote_requests i value =>
    rw [step]
    exact hg.after_run_handler (contract_poll_vote_requests _ value) fun hmode hevents =>
      .inr (hok hmode hevents)
  | hb_receive_cb i value =>
    simp only [step]
    split_ifs
    · exact hg.after_run_handler (contract_hb_receive_cb _ value) fun _ => hb_receive_cb_lacksVotes _ value
    · exact hg
  | _ => exact hg.after_move (step_move g _) hok (by simp [causes])

/-- In every run, servers that join included, in which the vote ACKs left in the array of a server that has
    not started an election for its state identifier are never a majority, whoever becomes leader of a term
    by votes has started an election for this term before. -/
theorem leaders_have_held_election {group_size : UInt8} {server : Nat → dare_server_data_t}
    (hinit : ∀ i, init_server_data i group_size = some (server i)) (actions : List Action)
    (hok : AllOk step NoLeftoverVotes (group_init group_size server hinit) actions) :
    ElectedFirst (steps step (group_init group_size server hinit) actions).trace := by
  have hfields := fun i => init_server_data_spec (hinit i)
  have hstart : Backed (group_init group_size server hinit) :=
    ⟨fun i => (hfields i).1, fun i => .inr (lacksVotes_of_null (hfields i).2.1), trivial⟩
  exact (hok.invariant (fun g a hg hok => hg.after_step hok) hstart).elected

end steps

instance (g : group_t) : ∀ a, Decidable (NoLeftoverVotes g a)
  | .poll_vote_requests _ _ => inferInstanceAs (Decidable (_ → _ → _))
  | .deliver i j =>
    have : Decidable (∀ w ∈ (g.wire i j).head?, LacksVotes (receive (g.server j) i w)) :=
      Option.decidableForallMem _
    inferInstanceAs (Decidable (_ → _))
  | .cid _ _ => inferInstanceAs (Decidable (_ → _))
  | .join .. => inferInstanceAs (Decidable (LacksVotes _))
  | .start _ | .hb_receive_cb .. | .hb_send_cb .. | .to_adjust_cb _ | .poll_vote_count ..
  | .fail_ack _ | .connect .. | .log .. | .verify_leadership ..
  | .recover_log_cb .. => inferInstanceAs (Decidable True)

/-- Server 0 is elected by server 1. -/
def first_leader : List Action :=
  [.connect 0 1 true, .connect 1 0 true, .start 0, .start 1, .hb_receive_cb 0 0, .deliver 0 1, .deliver 0 1,
    .poll_vote_requests 1 0, .deliver 1 0, .deliver 1 0, .poll_vote_count 0 0]

/-- A log with one entry. -/
def log_of_one : dare_log_t := (log_append_entry log_new 1 7 3 .noop).1

/-- Server 0 declines the request of server 2, whose log is empty, with an array of vote ACKs that its first
    election has cleared. It then starts the election for the third term, and server 1 votes for it. -/
def leader_after_decline : List Action :=
  [.log 0 log_of_one, .connect 0 1 true, .connect 1 0 true, .connect 0 2 true, .connect 2 0 true, .start 0,
    .start 1, .start 2, .hb_receive_cb 2 0, .deliver 2 0, .deliver 2 0, .poll_vote_requests 0 0,
    .poll_vote_count 0 0, .hb_receive_cb 0 0, .deliver 0 1, .deliver 0 1, .poll_vote_requests 1 0,
    .deliver 1 0, .deliver 1 0, .poll_vote_count 0 0]

theorem leader_has_held_election_after_decline :
    ⟨0, .decline, mk_sid 2 false 0⟩ ∈ (steps step group_of_three leader_after_decline).trace ∧
      ⟨0, .votes, mk_sid 3 true 0⟩ ∈ (steps step group_of_three leader_after_decline).trace ∧
      ElectedFirst (steps step group_of_three leader_after_decline).trace :=
  ⟨by decide +kernel, by decide +kernel,
    leaders_have_held_election server_of_three_init leader_after_decline (by decide +kernel)⟩

/-- Server 0 recovers, with an empty array of vote ACKs and a vote for server 1 in the first term. It then
    declines the request of server 2, whose log is empty. -/
def declined_request : List Action :=
  [.join 0 (server_of_three 0).cid (mk_sid 1 false 1) log_of_one, .connect 0 2 true, .connect 2 0 true,
    .recover_log_cb 0 0, .start 2, .hb_receive_cb 2 0, .deliver 2 0, .deliver 2 0, .poll_vote_requests 0 0,
    .poll_vote_count 0 0]

/-- The zeros in the array count as votes, and server 0 leads without an election. -/
theorem leader_without_election :
    ¬ElectedFirst (steps step group_of_three declined_request).trace := by
  decide +kernel

end dare.election
