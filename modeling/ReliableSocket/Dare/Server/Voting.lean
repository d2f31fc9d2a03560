import ReliableSocket.Dare.Server.Terms

open dare.log dare.server run

namespace dare.election

/-- A vote ACK: who has sent it, in which term, and to whom. -/
structure ack_t where
  voter : Nat
  term : UInt64
  candidate : Nat
deriving DecidableEq, Repr

/-- The vote ACKs that `poll_vote_requests` sends in a step. -/
def vote_acks (g : group_t) : Action → List ack_t
  | .poll_vote_requests i value =>
    if g.mode i = .running then
      let r := poll_vote_requests (g.server i) value
      r.posted.filterMap fun p =>
        match p.2 with
        | .vote_ack _ => some ⟨i, SID_GET_TERM r.data.sid, p.1⟩
        | _ => none
    else []
  | _ => []

/-- A group, with all vote ACKs that were sent. -/
structure voting_t where
  group : group_t
  acks : List ack_t

def voting_step (s : voting_t) (a : Action) : voting_t where
  group := step s.group a
  acks := vote_acks s.group a ++ s.acks

/-- No state identifier decreases. -/
def SidGrows (s : voting_t) (a : Action) : Prop :=
  ∀ i, (s.group.server i).sid ≤ ((voting_step s a).group.server i).sid

/-- In one term a server has sent vote ACKs to one candidate at most, and to none if it has started an
    election or has declined to vote. -/
structure VotesOnce (s : voting_t) : Prop where
  once : ∀ x ∈ s.acks, ∀ y ∈ s.acks, x.voter = y.voter → x.term = y.term → x.candidate = y.candidate
  not_candidate : ∀ x ∈ s.acks, ∀ e ∈ s.group.trace, e.cause = .start_election ∨ e.cause = .decline →
    e.server = x.voter → SID_GET_TERM e.sid ≠ x.term

section votes

variable {data : dare_server_data_t} {value : Nat}

/-- Only a vote posts anything. -/
theorem posted_in_vote {p : Nat × ctrl_write} (hposted : p ∈ (poll_vote_requests data value).posted) :
    ∃ e ∈ (poll_vote_requests data value).events, e.cause = .vote := by
  unfold poll_vote_requests at hposted ⊢
  simp only at hposted ⊢
  split_ifs at hposted ⊢
  · cases hposted
  · cases hposted
  · cases hposted
  · cases hposted
  · rw [cast_vote_events]
    exact ⟨_, List.mem_singleton_self _, rfl⟩

theorem vote_of_posted {p : Nat × ctrl_write} (hposted : p ∈ (poll_vote_requests data value).posted) :
    (poll_vote_requests data value).events =
      [⟨data.idx, .vote, (poll_vote_requests data value).data.sid⟩] := by
  obtain ⟨e, he, hcause⟩ := posted_in_vote hposted
  obtain ⟨hevents, hevent, -⟩ := (contract_poll_vote_requests data value).sid.event he
  rw [hcause] at hevent
  rw [hevents, hevent]

end votes

/-- Every vote ACK belongs to a vote. -/
structure Voting (s : voting_t) : Prop where
  ordered : Ordered s.group
  acks : ∀ x ∈ s.acks, ∃ sid, ⟨x.voter, .vote, sid⟩ ∈ s.group.trace ∧ SID_GET_TERM sid = x.term ∧
    SID_GET_IDX sid = x.candidate

section runs

variable {s : voting_t} {a : Action}

theorem Voting.step (hs : Voting s) (hok : crash_free a = true ∧ TermLeft s.group a) :
    Voting (voting_step s a) := by
  refine ⟨(hs.ordered.after_step hok.1 hok.2).1, fun x hx => ?_⟩
  obtain hnew | hold := List.mem_append.mp hx
  · cases a with
    | poll_vote_requests i value =>
      simp only [vote_acks] at hnew
      split_ifs at hnew with hmode
      · obtain ⟨⟨k, w⟩, hposted, hack⟩ := List.mem_filterMap.mp hnew
        have hevents := vote_of_posted hposted
        rw [hs.ordered.idx i] at hevents
        have htrace : ⟨i, .vote, (poll_vote_requests (s.group.server i) value).data.sid⟩ ∈
            (voting_step s (.poll_vote_requests i value)).group.trace := by
          simp only [voting_step, election.step, run_handler, if_pos hmode, handle]
          rw [hevents]
          exact List.mem_append_left _ (List.mem_singleton_self _)
        cases w with
        | vote_ack commit =>
          obtain ⟨-, hk⟩ := (contract_poll_vote_requests _ value).posted_ack k commit hposted
          cases hack
          exact ⟨_, htrace, rfl, hk.symm⟩
        | hb sid => cases hack
        | vote_req request => cases hack
      · cases hnew
    | _ => cases hnew
  · obtain ⟨sid, hmem, hterm, hcandidate⟩ := hs.acks x hold
    exact ⟨sid, trace_subset s.group a _ hmem, hterm, hcandidate⟩

theorem Voting.votes_once (hs : Voting s) : VotesOnce s where
  once x hx y hy hvoter hterm := by
    obtain ⟨sid, hmem, hsid, hx⟩ := hs.acks x hx
    obtain ⟨sid', hmem', hsid', hy⟩ := hs.acks y hy
    have hsame := hs.ordered.same_of_begins hmem hmem' hvoter (by rw [hsid, hsid', hterm]) rfl rfl
    rw [← hx, ← hy, (event_t.mk.inj hsame).2.2]
  not_candidate x hx e he hcause hserver hterm := by
    obtain ⟨sid, hmem, hsid, -⟩ := hs.acks x hx
    have hbegins : begins_term e.cause = true := by
      obtain hcause | hcause := hcause
      · rw [hcause]
        rfl
      · rw [hcause]
        rfl
    have hsame := hs.ordered.same_of_begins he hmem hserver (hterm.trans hsid.symm) hbegins rfl
    rw [hsame] at hcause
    obtain hcause | hcause := hcause
    · cases hcause
    · cases hcause

/-- In every run without crashes in which no election is started in the last of the 2^55 terms, no state
    identifier ever decreases, and in each term a server sends vote ACKs to one candidate at most and to
    none if it has started an election itself or has declined to vote. -/
theorem sid_grows_and_votes_once {group_size : UInt8} {server : Nat → dare_server_data_t}
    (hinit : ∀ i, init_server_data i group_size = some (server i)) (actions : List Action)
    (hfree : ∀ a ∈ actions, crash_free a = true)
    (hterm : AllOk voting_step (fun s a => TermLeft s.group a) ⟨group_init group_size server hinit, []⟩ actions) :
    AllOk voting_step SidGrows ⟨group_init group_size server hinit, []⟩ actions ∧
      Always voting_step VotesOnce ⟨group_init group_size server hinit, []⟩ actions := by
  have hstart : Voting ⟨group_init group_size server hinit, []⟩ := ⟨ordered_init hinit, nofun⟩
  have hok := hterm.and_mem hfree
  constructor
  · exact hok.imp (fun s a hs hok => Voting.step hs hok)
      (fun s a hs hok => (hs.ordered.after_step hok.1 hok.2).2) hstart
  · exact hok.always (fun s a hs hok => Voting.step hs hok) (fun s hs => hs.votes_once) hstart

end runs

/-- Server 0 starts and asks server 1 for its vote. -/
def one_vote : List Action :=
  [.connect 0 1 true, .connect 1 0 true, .start 0, .start 1, .hb_receive_cb 0 0, .deliver 0 1, .deliver 0 1,
    .poll_vote_requests 1 0, .deliver 1 0, .deliver 1 0]

theorem one_vote_is_cast :
    (steps voting_step ⟨group_of_three, []⟩ one_vote).acks = [⟨1, 2, 0⟩] ∧
      AllOk voting_step SidGrows ⟨group_of_three, []⟩ one_vote ∧
      Always voting_step VotesOnce ⟨group_of_three, []⟩ one_vote :=
  ⟨by decide +kernel, sid_grows_and_votes_once server_of_three_init one_vote (by decide) (by decide +kernel)⟩

section wrap

variable {g : group_t} {k : Nat}

/-- Server 0 has heard from nobody and is in its `k`-th election. -/
structure Unheard (k : Nat) (g : group_t) : Prop where
  mode : g.mode 0 = .running
  event : (g.server 0).hb_event = .hb_receive_cb
  idx : (g.server 0).idx = 0
  cid : (g.server 0).cid = (server_of_three 0).cid
  hb : ∀ i, (g.server 0).hb i = 0
  latest : (g.server 0).latest_hb_received = 0
  sid : (g.server 0).sid.toNat = k % 2 ^ 55 * 512

/-- Without a heartbeat the loop of `hb_receive_cb` ends in a timeout. -/
theorem hb_receive_loop_silent {data : dare_server_data_t} (hhb : ∀ i, data.hb i = 0)
    (hlatest : data.latest_hb_received = 0) : (hb_receive_loop data).timeout = true := by
  refine (hb_receive_loop_invariant (P := fun s => s.timeout = true) (fun s i hs _ htimeout => ?_) rfl).2
  have hzero : (fetch_hb s.data (SID_GET_IDX data.sid) i).1 = 0 := by
    obtain hown | hkept := fetch_hb_source s.data (SID_GET_IDX data.sid) i
    · rw [hown]
      exact (hs.dropped.hb i).elim (·.trans (hhb i)) id
    · rw [hkept]
      exact hs.latest.elim (·.trans hlatest) id
  unfold hb_receive_server
  split_ifs
  · exact htimeout
  · simp only [hzero, if_true]
    exact htimeout

theorem election_sid_of_first {data : dare_server_data_t} (hidx : data.idx = 0)
    (hsid : data.sid.toNat = k % 2 ^ 55 * 512) : (election_sid data).toNat = (k + 1) % 2 ^ 55 * 512 := by
  obtain ⟨hnext, hl, hown⟩ := @election_sid_fields data (by omega)
  rw [sid_toNat, hnext, hl, hown, hidx, sid_get_term, hsid]
  simp only [Bool.false_eq_true, if_false]
  omega

/-- A server that has heard from nobody starts the next election. -/
theorem Unheard.timeout (hg : Unheard k g) : Unheard (k + 1) (step g (.hb_receive_cb 0 0)) := by
  have hmember : ¬(g.server 0).idx ≥ get_group_size (g.server 0).cid := by
    rw [hg.idx, hg.cid]
    decide
  have hscan := scanned_loop (g.server 0)
  have hsilent := hb_receive_loop_silent hg.hb hg.latest
  have hstep : step g (.hb_receive_cb 0 0) = handle g 0 (hb_receive_cb (g.server 0) 0) := by
    simp only [step, if_pos hg.event, run_handler, if_pos hg.mode]
  have hhandler : hb_receive_cb (g.server 0) 0 = { start_election (hb_receive_loop (g.server 0)).data with
      posted := (hb_receive_loop (g.server 0)).posted ++
        (start_election (hb_receive_loop (g.server 0)).data).posted } := by
    simp only [hb_receive_cb, if_neg hmember, if_pos hsilent]
  rw [hstep, hhandler]
  have hdata := start_election_data (hb_receive_loop (g.server 0)).data
  have hmode : (start_election (hb_receive_loop (g.server 0)).data).mode = .running := rfl
  generalize start_election (hb_receive_loop (g.server 0)).data = started at hdata hmode
  have hdropped := hscan.dropped
  have hkept := hscan.latest
  generalize hb_receive_loop (g.server 0) = scan at hdata hdropped hkept
  have hhb : ∀ i, scan.data.hb i = 0 := fun i => (hdropped.hb i).elim (·.trans (hg.hb i)) id
  have hlatest : scan.data.latest_hb_received = 0 := hkept.elim (·.trans hg.latest) id
  have hsid : (election_sid scan.data).toNat = (k + 1) % 2 ^ 55 * 512 :=
    election_sid_of_first (hdropped.idx.trans hg.idx) (by rw [hdropped.sid]; exact hg.sid)
  refine ⟨?_, ?_, ?_, ?_, fun i => ?_, ?_, ?_⟩
  · rw [handle_mode_self, hmode]
  · rw [handle_server_self, hdata]
  · rw [handle_server_self, hdata]
    exact hdropped.idx.trans hg.idx
  · rw [handle_server_self, hdata]
    exact hdropped.cid.trans hg.cid
  · rw [handle_server_self, hdata]
    exact hhb i
  · rw [handle_server_self, hdata]
    exact hlatest
  · rw [handle_server_self, hdata]
    exact hsid

/-- Server 0 starts, and its timer runs out `k` times. -/
def timeouts (k : Nat) : List Action := .start 0 :: List.replicate k (.hb_receive_cb 0 0)

theorem timeouts_succ (k : Nat) : timeouts (k + 1) = timeouts k ++ [.hb_receive_cb 0 0] := by
  rw [timeouts, List.replicate_succ', timeouts, List.cons_append]

theorem unheard_timeouts (k : Nat) :
    Unheard (k + 1) (steps voting_step ⟨group_of_three, []⟩ (timeouts k)).group := by
  induction k with
  | zero =>
    refine ⟨by decide +kernel, by decide +kernel, rfl, rfl, fun _ => rfl, rfl, by decide +kernel⟩
  | succ k ih =>
    rw [timeouts_succ, steps_concat]
    exact ih.timeout

/-- After 2^55 - 1 timeouts the term is zero again. -/
theorem sid_wraps_around :
    ∃ k, k + 1 = 2 ^ 55 ∧ (∀ a ∈ timeouts k, crash_free a = true) ∧
      ¬AllOk voting_step SidGrows ⟨group_of_three, []⟩ (timeouts k) := by
  obtain ⟨k, hk⟩ : ∃ k, k + 2 = 2 ^ 55 := ⟨2 ^ 55 - 2, by decide⟩
  refine ⟨k + 1, hk, fun a ha => ?_, fun hgrows => ?_⟩
  · obtain rfl | ha := List.mem_cons.mp ha
    · rfl
    · rw [List.eq_of_mem_replicate ha]
      rfl
  · rw [timeouts_succ, allOk_concat] at hgrows
    have hlast := unheard_timeouts k
    have hle := UInt64.le_iff_toNat_le.mp (hgrows.2 0)
    rw [voting_step, hlast.sid, hlast.timeout.sid] at hle
    omega

end wrap

end dare.election
