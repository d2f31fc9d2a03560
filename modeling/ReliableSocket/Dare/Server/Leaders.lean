import Mathlib.Data.Finset.Card
import ReliableSocket.Dare.Server.Elected

open dare.log dare.server run

namespace dare.election

/-- The server has voted for the candidate with this state identifier, or is this candidate. -/
def Supports (trace : List event_t) (sid : UInt64) (k : Nat) : Prop :=
  ⟨k, .vote, sid⟩ ∈ trace ∨ ⟨k, .start_election, sid⟩ ∈ trace

/-- More than half of the servers support the candidate. -/
def Wins (n : Nat) (trace : List event_t) (sid : UInt64) : Prop :=
  ∃ voters : Finset Nat, (∀ k ∈ voters, k < n ∧ Supports trace sid k) ∧ n < 2 * voters.card

/-- The state identifier of a leader of the group: it is alone, or has won its election. -/
def Leads (n : Nat) (trace : List event_t) (sid : UInt64) : Prop :=
  SID_GET_IDX sid < n ∧ (n = 1 ∨ ∃ candidate, SID_SET_L candidate = sid ∧ Wins n trace candidate)

section wins

variable {n : Nat} {trace trace' : List event_t} {sid sid' : UInt64}

theorem Leads.mono (h : Leads n trace sid) (hsubset : ∀ e ∈ trace, e ∈ trace') : Leads n trace' sid := by
  refine ⟨h.1, h.2.imp_right fun ⟨candidate, hset, voters, hvoters, hcard⟩ => ?_⟩
  refine ⟨candidate, hset, voters, fun k hk => ?_, hcard⟩
  exact ⟨(hvoters k hk).1, (hvoters k hk).2.imp (hsubset _) (hsubset _)⟩

/-- Two majorities share a server, which supports one candidate only in a term. -/
theorem Wins.unique (horder : InOrder trace) (h : Wins n trace sid) (h' : Wins n trace sid')
    (hterm : SID_GET_TERM sid = SID_GET_TERM sid') : sid = sid' := by
  obtain ⟨voters, hvoters, hcard⟩ := h
  obtain ⟨voters', hvoters', hcard'⟩ := h'
  have hrange : ∀ {s : Finset Nat} {sid : UInt64}, (∀ k ∈ s, k < n ∧ Supports trace sid k) →
      s ⊆ Finset.range n := fun hs k hk => Finset.mem_range.mpr (hs k hk).1
  obtain ⟨k, hk⟩ := Finset.inter_nonempty_of_card_lt_card_add_card (hrange hvoters) (hrange hvoters')
    (by rw [Finset.card_range]; omega)
  obtain ⟨hk, hk'⟩ := Finset.mem_inter.mp hk
  have hbegins : ∀ {sid : UInt64}, Supports trace sid k →
      ∃ e ∈ trace, e.server = k ∧ e.sid = sid ∧ begins_term e.cause = true := by
    rintro sid (hmem | hmem)
    · exact ⟨_, hmem, rfl, rfl, rfl⟩
    · exact ⟨_, hmem, rfl, rfl, rfl⟩
  obtain ⟨e, he, hserver, rfl, hcause⟩ := hbegins (hvoters k hk).2
  obtain ⟨e', he', hserver', rfl, hcause'⟩ := hbegins (hvoters' k hk').2
  rw [horder.same_of_begins he he' (hserver.trans hserver'.symm) hterm hcause hcause']

theorem Leads.unique (horder : InOrder trace) (h : Leads n trace sid) (h' : Leads n trace sid')
    (hterm : SID_GET_TERM sid = SID_GET_TERM sid') : SID_GET_IDX sid = SID_GET_IDX sid' := by
  obtain ⟨hlt, hone | ⟨candidate, rfl, hwins⟩⟩ := h
  · have hlt' := h'.1
    omega
  · obtain ⟨hlt', hone | ⟨candidate', rfl, hwins'⟩⟩ := h'
    · omega
    · rw [(sid_set_l_fields _).1, (sid_set_l_fields _).1] at hterm
      rw [hwins.unique horder hwins' hterm]

end wins

/-- The steps of an election: no server joins, changes its configuration or verifies the leadership. -/
def election_action : Action → Bool
  | .join .. | .cid .. | .verify_leadership .. => false
  | _ => true

/-- The next write of server `i` for server `j` is a vote ACK. -/
def ack_is_next (g : group_t) (i j : Nat) : Bool :=
  match g.wire i j with
  | .vote_ack _ :: _ => true
  | _ => false

/-- A vote ACK reaches a candidate only while it has the state identifier for which the voter has voted. -/
def AckInTime (g : group_t) : Action → Prop
  | .deliver i j =>
    ack_is_next g i j = true → IS_CANDIDATE (g.server j) = true → (g.server i).sid = (g.server j).sid
  | _ => True

/-- A candidate that has the votes still has the request in its own slot, which it has sent when it
    started the election. -/
def RequestStands (g : group_t) : Action → Prop
  | .poll_vote_count i _ =>
    IS_CANDIDATE (g.server i) = true → has_majority (g.server i) = true →
      ((g.server i).vote_req i).sid = (g.server i).sid
  | _ => True

/-- An election in a fixed configuration: each counted vote ACK of a candidate is a vote for it, and every
    leader has won. -/
structure Elections (cid : dare_cid_t) (g : group_t) : Prop extends Ordered g where
  stable : cid.state = CID_STABLE
  same_cid : ∀ i, (g.server i).cid = cid
  request_cid : ∀ i j, ((g.server j).vote_req i).sid = 0 ∨ ((g.server j).vote_req i).cid = cid
  wire_cid : ∀ i j request, .vote_req request ∈ g.wire i j → i ≠ j ∧ request.cid = cid
  latest : ∀ i, (g.server i).latest_hb_received = 0 ∨ ∃ e ∈ g.trace, e.sid = (g.server i).latest_hb_received
  members : ∀ e ∈ g.trace, e.server < get_group_size cid
  voter : ∀ i, SID_GET_L (g.server i).sid = false → (g.server i).sid = SID_NULL ∨
    SID_GET_IDX (g.server i).sid = i ∨ ⟨i, .vote, (g.server i).sid⟩ ∈ g.trace
  acks : ∀ i, IS_CANDIDATE (g.server i) = true → ((g.server i).vote_req i).sid = (g.server i).sid →
    ∀ k < get_group_size cid, has_ack (g.server i) k = true → ⟨k, .vote, (g.server i).sid⟩ ∈ g.trace
  leads : ∀ e ∈ g.trace, SID_GET_L e.sid = true → Leads (get_group_size cid) g.trace e.sid
  leader : ∀ i, SID_GET_L (g.server i).sid = true → Leads (get_group_size cid) g.trace (g.server i).sid

section steps

variable {cid : dare_cid_t} {g g' : group_t} {a : Action} {i : Nat} {r : handled} {data : dare_server_data_t}

theorem candidate_sid_ne_zero (hcandidate : IS_CANDIDATE data = true) : data.sid ≠ 0 := by
  intro hzero
  have hl : SID_GET_L 0 = false := by decide
  have hterm : SID_GET_TERM 0 = 0 := by decide
  simp only [IS_CANDIDATE, IS_NONE, hzero, hl, hterm] at hcandidate
  cases hidx : decide (SID_GET_IDX 0 = data.idx) with
  | true => simp [hidx] at hcandidate
  | false => simp [hidx] at hcandidate

theorem Elections.wins (hg : Elections cid g) (hcandidate : IS_CANDIDATE (g.server i) = true)
    (hmajority : has_majority (g.server i) = true)
    (hstands : ((g.server i).vote_req i).sid = (g.server i).sid) :
    i < get_group_size cid ∧ Wins (get_group_size cid) g.trace (g.server i).sid := by
  have hidx := hg.idx i
  have hstarted := (hg.request i i).resolve_left (by rw [hstands]; exact candidate_sid_ne_zero hcandidate)
  rw [hstands] at hstarted
  have hmember : i < get_group_size cid := hg.members _ hstarted
  refine ⟨hmember, ((List.range (get_group_size cid)).filter fun k =>
    decide ((g.server i).vote_ack k ≠ (g.server i).log.len) || decide (k = (g.server i).idx)).toFinset,
    fun k hk => ?_, ?_⟩
  · rw [List.mem_toFinset, List.mem_filter, List.mem_range] at hk
    obtain ⟨hlt, hk⟩ := hk
    refine ⟨hlt, ?_⟩
    by_cases hki : k = i
    · rw [hki]
      exact .inr hstarted
    · refine .inl (hg.acks i hcandidate hstands k hlt ?_)
      simpa [has_ack, hidx, hki] using hk
  · have hsize : get_group_size cid = cid.size_0.toNat := by
      simp [get_group_size, hg.stable, CID_STABLE, CID_TRANSIT]
    have hcount : vote_count (g.server i) (get_group_size cid) =
        1 + ack_count (g.server i) (get_group_size cid) := vote_count_eq (by rw [hg.same_cid])
    have hsupporters := supporters_eq (g.server i) (get_group_size cid)
    rw [hidx, if_pos hmember] at hsupporters
    simp only [has_majority, hg.same_cid, Bool.and_eq_true, decide_eq_true_eq, ← hsize] at hmajority
    have hcard := List.toFinset_card_of_nodup ((List.nodup_range (n := get_group_size cid)).filter fun k =>
      decide ((g.server i).vote_ack k ≠ (g.server i).log.len) || decide (k = (g.server i).idx))
    unfold supporters at hsupporters
    rw [hcard]
    omega

theorem is_candidate_congr {data' : dare_server_data_t} (hidx : data'.idx = data.idx)
    (hsid : data'.sid = data.sid) : IS_CANDIDATE data' = IS_CANDIDATE data := by
  simp only [IS_CANDIDATE, IS_NONE, hidx, hsid]

/-- The votes that are counted after a handler were counted before, for the same state identifier. -/
theorem Elections.acks_kept (hg : Elections cid g) (hcontract : Contract (g.server i) r)
    (hle : (g.server i).sid ≤ r.data.sid) (hcandidate : IS_CANDIDATE r.data = true)
    (hstands : (r.data.vote_req i).sid = r.data.sid) {k : Nat} (hk : k < get_group_size cid)
    (hack : has_ack r.data k = true) : ⟨k, .vote, r.data.sid⟩ ∈ g.trace := by
  have hnonzero := candidate_sid_ne_zero hcandidate
  have hcounted : k ≠ r.data.idx ∧ r.data.vote_ack k ≠ r.data.log.len := by
    simpa [has_ack] using hack
  -- an election would have cleared the vote ACKs
  have hquiet : r.events ≠ [election_event (g.server i)] := by
    intro hevents
    have hcleared := (hcontract.sid.event (hevents ▸ List.mem_singleton_self _)).2.2.2.1 rfl
    rw [hg.same_cid] at hcleared
    exact hcounted.2 ((hcleared k hk).trans hcontract.len.symm)
  have hacks : r.data.vote_ack = (g.server i).vote_ack :=
    hcontract.vote_ack.resolve_right fun h => hquiet h.1
  have hslot : r.data.vote_req i = (g.server i).vote_req i := by
    refine (hcontract.vote_req i).resolve_right fun h => ?_
    obtain hzero | ⟨-, hevents, -⟩ := h
    · exact hnonzero (hstands.symm.trans hzero)
    · exact hquiet hevents
  rw [hslot] at hstands
  have hstarted := (hg.request i i).resolve_left (by rw [hstands]; exact hnonzero)
  have hsid : r.data.sid = (g.server i).sid := by
    refine UInt64.le_antisymm ?_ hle
    rw [← hstands]
    exact hg.current _ hstarted
  rw [is_candidate_congr hcontract.idx hsid] at hcandidate
  rw [hsid] at hstands ⊢
  refine hg.acks i hcandidate hstands k hk ?_
  rw [has_ack, ← hcontract.idx, ← hacks, ← hcontract.len]
  exact hack

/-- A leader that a handler finds has won, or is one that another server has found before. -/
theorem Elections.leads_written (hg : Elections cid g) (hsmall : i < 256) (hcontract : Contract (g.server i) r)
    (hverified : ∀ e ∈ r.events, e.cause ≠ .verification)
    (hstands : ∀ e ∈ r.events, e.cause = .votes → IS_CANDIDATE (g.server i) = true →
      has_majority (g.server i) = true → ((g.server i).vote_req i).sid = (g.server i).sid)
    {e : event_t} (he : e ∈ r.events) (hl : SID_GET_L e.sid = true) :
    Leads (get_group_size cid) g.trace e.sid := by
  have hidx := hg.idx i
  have hsmall' : (g.server i).idx < 256 := by rw [hidx]; exact hsmall
  have hheard : ∀ k, (g.server i).hb k ≠ 0 → SID_GET_L ((g.server i).hb k) = true →
      Leads (get_group_size cid) g.trace ((g.server i).hb k) := by
    intro k hne hl
    obtain ⟨-, cause, hmem⟩ := (hg.hb k i).resolve_left hne
    exact hg.leads _ hmem hl
  obtain ⟨hevents, hevent, -⟩ := hcontract.sid.event he
  have hcause : ∀ {e' : event_t}, r.events = [e'] → e = e' := fun h =>
    (List.cons.inj (hevents.symm.trans h)).1
  rw [hevent] at hl ⊢
  simp only at hl ⊢
  cases hcontract.sid with
  | kept hnone =>
    rw [hnone] at he
    cases he
  | started _ hsid =>
    rw [hsid, (election_sid_fields hsmall').2.1] at hl
    cases hl
  | voted k _ _ hbetter hsid =>
    rw [hsid] at hbetter hl
    rw [(hg.requested hbetter).2.1] at hl
    cases hl
  | declined k _ hunset _ hsid =>
    rw [hsid, (decline_sid_spec _ hsmall' hunset).2.2] at hl
    cases hl
  | promoted hpromoted hcandidate hmajority hsid =>
    have hvotes : e.cause = .votes := by rw [hcause hpromoted]
    obtain ⟨hmember, hwins⟩ := hg.wins hcandidate hmajority (hstands e he hvotes hcandidate hmajority)
    have hown : SID_GET_IDX (g.server i).sid = i := by
      simp only [IS_CANDIDATE, Bool.and_eq_true, decide_eq_true_eq] at hcandidate
      exact hcandidate.1.2.trans hidx
    rw [hsid]
    exact ⟨by rw [(sid_set_l_fields _).2.2, hown]; exact hmember, .inr ⟨_, rfl, hwins⟩⟩
  | adopted _ _ hsid hzero =>
    rw [hsid] at hzero hl ⊢
    exact hheard _ hzero hl
  | followed _ hbetter _ hsid =>
    have hne := lt_ne_zero hbetter
    obtain ⟨k, hk⟩ | hlatest := hsid
    · rw [hk] at hne hl ⊢
      exact hheard k hne hl
    · rw [hlatest] at hne hl ⊢
      obtain ⟨e', he', hsid'⟩ := (hg.latest i).resolve_left hne
      rw [← hsid'] at hl ⊢
      exact hg.leads e' he' hl
  | verified hevents' => exact absurd (by rw [hcause hevents']) (hverified e he)

theorem Elections.after_handler (hg : Elections cid g)
    (hruns : g.mode i ≠ .starting ∨
      i < get_group_size (g.server i).cid ∧ r = start_election (g.server i))
    (hcontract : Contract (g.server i) r)
    (hterm : r.events = [election_event (g.server i)] → HasNextTerm (g.server i))
    (hverified : ∀ e ∈ r.events, e.cause ≠ .verification)
    (hstands : ∀ e ∈ r.events, e.cause = .votes → IS_CANDIDATE (g.server i) = true →
      has_majority (g.server i) = true → ((g.server i).vote_req i).sid = (g.server i).sid)
    (hserver : g'.server = Function.update g.server i r.data) (hmode : ∀ k ≠ i, g'.mode k = g.mode k)
    (hwire : ∀ k l w, w ∈ g'.wire k l → w ∈ g.wire k l ∨ k = i ∧ (l, w) ∈ r.posted)
    (htrace : g'.trace = r.events ++ g.trace) : Elections cid g' := by
  have hidx := hg.idx i
  have hcid := hg.same_cid i
  have hmember : i < get_group_size cid := by
    obtain hrunning | ⟨hlt, -⟩ := hruns
    · obtain ⟨-, cause, hmem⟩ := hg.started i hrunning
      exact hg.members _ hmem
    · rw [hcid] at hlt
      exact hlt
  have hsmall := lt_of_lt_group hmember
  have hsubset : ∀ e ∈ g.trace, e ∈ g'.trace := fun e he => htrace ▸ List.mem_append_right _ he
  obtain ⟨hordered, hgrows⟩ := hg.toOrdered.after_handler hruns hcontract hterm hserver hmode hwire htrace
  obtain ⟨-, -, -, ⟨cause, hlast⟩, -, hvoter⟩ :=
    hg.toOrdered.written hsmall (hruns.imp_right fun h => by rw [h.2]; rfl) hcontract.sid hterm htrace
  have hself : g'.server i = r.data := by rw [hserver, Function.update_self]
  have hother : ∀ k, k ≠ i → g'.server k = g.server k := fun k hk => by
    rw [hserver, Function.update_of_ne hk]
  have hle := hgrows i
  rw [hself] at hle
  have hleads : ∀ e ∈ g'.trace, SID_GET_L e.sid = true → Leads (get_group_size cid) g'.trace e.sid := by
    intro e he hl
    rw [htrace] at he
    obtain he | he := List.mem_append.mp he
    · exact (hg.leads_written hsmall hcontract hverified hstands he hl).mono hsubset
    · exact (hg.leads e he hl).mono hsubset
  refine ⟨hordered, hg.stable, fun k => ?_, fun k j => ?_, fun k j request hmem => ?_, fun k => ?_,
    fun e he => ?_, fun k hl => ?_, fun k hcandidate hown l hl hack => ?_, hleads, fun k hl => ?_⟩
  · by_cases hk : k = i
    · rw [hk, hself]
      obtain hsame | ⟨-, j, hne, hrequest⟩ := hcontract.cid
      · exact hsame.trans hcid
      · exact hrequest.trans ((hg.request_cid j i).resolve_left hne)
    · rw [hother k hk]
      exact hg.same_cid k
  · by_cases hj : j = i
    · rw [hj, hself]
      obtain hsame | hzero | ⟨-, -, -, hrequest⟩ := hcontract.vote_req k
      · rw [hsame]
        exact hg.request_cid k i
      · exact .inl hzero
      · exact .inr (hrequest.trans hcid)
    · rw [hother j hj]
      exact hg.request_cid k j
  · obtain hold | ⟨rfl, hposted⟩ := hwire k j _ hmem
    · exact hg.wire_cid k j request hold
    · obtain ⟨hne, -, -, hrequest⟩ := hcontract.posted_req j request hposted
      rw [hidx] at hne
      exact ⟨hne.symm, hrequest.trans hcid⟩
  · have hkept : (g.server k).latest_hb_received = 0 ∨
        ∃ e ∈ g'.trace, e.sid = (g.server k).latest_hb_received :=
      (hg.latest k).imp_right fun ⟨e, he, hsid⟩ => ⟨e, hsubset e he, hsid⟩
    by_cases hk : k = i
    · rw [hk] at hkept ⊢
      rw [hself]
      obtain hsame | hzero | ⟨j, hj⟩ := hcontract.latest
      · rw [hsame]
        exact hkept
      · exact .inl hzero
      · rw [hj]
        exact (hg.hb j i).imp_right fun ⟨_, cause, hmem⟩ => ⟨_, hsubset _ hmem, rfl⟩
    · rw [hother k hk]
      exact hkept
  · rw [htrace] at he
    obtain he | he := List.mem_append.mp he
    · rw [(hcontract.sid.event he).2.1, hidx]
      exact hmember
    · exact hg.members e he
  · by_cases hk : k = i
    · subst hk
      rw [hself] at hl ⊢
      exact .inr (hvoter hl)
    · rw [hother k hk] at hl ⊢
      exact (hg.voter k hl).imp_right fun h => h.imp_right (hsubset _)
  · by_cases hk : k = i
    · subst hk
      rw [hself] at hcandidate hown hack ⊢
      exact hsubset _ (hg.acks_kept hcontract hle hcandidate hown hl hack)
    · rw [hother k hk] at hcandidate hown hack ⊢
      exact hsubset _ (hg.acks k hcandidate hown l hl hack)
  · by_cases hk : k = i
    · subst hk
      rw [hself] at hl ⊢
      exact hleads _ hlast hl
    · rw [hother k hk] at hl ⊢
      exact (hg.leader k hl).mono hsubset

/-- Steps without a handler: a server may be told something that is on the wire, and a server that is
    alone becomes leader. -/
theorem Elections.of_same (hg : Elections cid g) (hordered : Ordered g')
    (hsubset : ∀ e ∈ g.trace, e ∈ g'.trace)
    (hfields : ∀ k, (g'.server k).cid = (g.server k).cid ∧
      (g'.server k).latest_hb_received = (g.server k).latest_hb_received)
    (hrequest : ∀ k j, (g'.server j).vote_req k = (g.server j).vote_req k ∨
      .vote_req ((g'.server j).vote_req k) ∈ g.wire k j)
    (hwire : ∀ k l, ∀ w ∈ g'.wire k l, w ∈ g.wire k l)
    (hsid : ∀ k, (g'.server k).sid = (g.server k).sid ∨ SID_GET_L (g'.server k).sid = true ∧
      Leads (get_group_size cid) g'.trace (g'.server k).sid)
    (hacks : ∀ k, IS_CANDIDATE (g.server k) = true → (g'.server k).sid = (g.server k).sid →
      ((g.server k).vote_req k).sid = (g.server k).sid → ∀ l < get_group_size cid,
      has_ack (g'.server k) l = true → has_ack (g.server k) l = true ∨ ⟨l, .vote, (g.server k).sid⟩ ∈ g.trace)
    (hnew : ∀ e ∈ g'.trace, e ∈ g.trace ∨ e.server < get_group_size cid ∧
      Leads (get_group_size cid) g'.trace e.sid) : Elections cid g' := by
  refine ⟨hordered, hg.stable, fun k => (hfields k).1.trans (hg.same_cid k), fun k j => ?_,
    fun k j request hmem => hg.wire_cid k j request (hwire k j _ hmem), fun k => ?_, fun e he => ?_,
    fun k hl => ?_, fun k hcandidate hown l hl hack => ?_, fun e he hl => ?_, fun k hl => ?_⟩
  · obtain hsame | hmem := hrequest k j
    · rw [hsame]
      exact hg.request_cid k j
    · exact .inr (hg.wire_cid k j _ hmem).2
  · rw [(hfields k).2]
    exact (hg.latest k).imp_right fun ⟨e, he, hsid⟩ => ⟨e, hsubset e he, hsid⟩
  · exact (hnew e he).elim (hg.members e) fun h => h.1
  · obtain hsame | ⟨hleader, -⟩ := hsid k
    · rw [hsame] at hl ⊢
      exact (hg.voter k hl).imp_right fun h => h.imp_right (hsubset _)
    · rw [hleader] at hl
      cases hl
  · have hsame : (g'.server k).sid = (g.server k).sid := by
      refine (hsid k).resolve_right fun ⟨hleader, _⟩ => ?_
      simp [IS_CANDIDATE, hleader] at hcandidate
    have hslot : (g'.server k).vote_req k = (g.server k).vote_req k :=
      (hrequest k k).resolve_right fun hmem => (hg.wire_cid k k _ hmem).1 rfl
    rw [is_candidate_congr ((hordered.idx k).trans (hg.idx k).symm) hsame] at hcandidate
    rw [hslot, hsame] at hown
    rw [hsame]
    obtain hold | hvote := hacks k hcandidate hsame hown l hl hack
    · exact hsubset _ (hg.acks k hcandidate hown l hl hold)
    · exact hsubset _ hvote
  · exact (hnew e he).elim (fun he => (hg.leads e he hl).mono hsubset) fun h => h.2
  · obtain hsame | ⟨-, hleads⟩ := hsid k
    · rw [hsame] at hl ⊢
      exact (hg.leader k hl).mono hsubset
    · exact hleads

theorem Elections.after_alone (hg : Elections cid g) (hlt : i < get_group_size (g.server i).cid)
    (hsize : (g.server i).cid.size_0 = 1) (hsid : (g.server i).sid = SID_NULL)
    (hserver : g'.server = Function.update g.server i { g.server i with sid := alone_sid (g.server i) })
    (hmode : g'.mode = g.mode) (hwire : g'.wire = g.wire)
    (htrace : g'.trace = ⟨i, .alone, alone_sid (g.server i)⟩ :: g.trace) : Elections cid g' := by
  obtain ⟨-, hleader, hfirst⟩ := alone_sid_spec hsid
  have hordered := (hg.toOrdered.after_alone hlt hsid hserver hmode hwire htrace).1
  rw [hg.same_cid] at hlt hsize
  have hone : get_group_size cid = 1 := by
    rw [get_group_size, hg.stable, if_pos (by decide), hsize]
    rfl
  have hself : g'.server i = { g.server i with sid := alone_sid (g.server i) } := by
    rw [hserver, Function.update_self]
  have hother : ∀ k, k ≠ i → g'.server k = g.server k := fun k hk => by
    rw [hserver, Function.update_of_ne hk]
  have hleads : Leads (get_group_size cid) g'.trace (alone_sid (g.server i)) :=
    ⟨by rw [hfirst, hone]; exact Nat.one_pos, .inl hone⟩
  refine hg.of_same hordered (fun e he => htrace ▸ List.mem_cons_of_mem _ he) (fun k => ?_)
    (fun k j => .inl ?_) (fun k l w hmem => hwire ▸ hmem) (fun k => ?_)
    (fun k _ _ _ l _ hack => .inl ?_) fun e he => ?_
  · by_cases hk : k = i
    · rw [hk, hself]
      exact ⟨rfl, rfl⟩
    · rw [hother k hk]
      exact ⟨rfl, rfl⟩
  · by_cases hj : j = i
    · rw [hj, hself]
    · rw [hother j hj]
  · by_cases hk : k = i
    · rw [hk, hself]
      exact .inr ⟨hleader, hleads⟩
    · rw [hother k hk]
      exact .inl rfl
  · by_cases hk : k = i
    · rw [hk, hself] at hack
      rw [hk]
      exact hack
    · rwa [hother k hk] at hack
  · rw [htrace] at he
    obtain rfl | he := List.mem_cons.mp he
    · exact .inr ⟨hlt, hleads⟩
    · exact .inl he

theorem has_ack_congr {data' : dare_server_data_t} (h : SameControl data data') (k : Nat) :
    has_ack data' k = has_ack data k := by
  rw [has_ack, has_ack, h.idx, h.vote_ack, h.len]

/-- A voter that has the state identifier of a candidate has voted for it. -/
theorem Elections.voted_for (hg : Elections cid g) {j : Nat} (hcandidate : IS_CANDIDATE (g.server j) = true)
    (hstands : ((g.server j).vote_req j).sid = (g.server j).sid) (hne : i ≠ j)
    (hsid : (g.server i).sid = (g.server j).sid) : ⟨i, .vote, (g.server j).sid⟩ ∈ g.trace := by
  have hstarted := (hg.request j j).resolve_left (by rw [hstands]; exact candidate_sid_ne_zero hcandidate)
  rw [hstands] at hstarted
  obtain ⟨hl, hown⟩ : SID_GET_L (g.server j).sid = false ∧ SID_GET_IDX (g.server j).sid = j :=
    hg.elected _ hstarted rfl
  have hmember : j < get_group_size cid := hg.members _ hstarted
  rw [← hsid] at hl hown ⊢
  obtain hnull | hself | hvoted := hg.voter i hl
  · have hlast : j = 255 := by
      rw [← hown, hnull]
      decide
    have hsize : get_group_size cid ≤ 255 := by
      have hlt := cid.size_0.toNat_lt
      rw [get_group_size, hg.stable, if_pos (by decide)]
      omega
    omega
  · exact absurd (hself.symm.trans hown) hne
  · exact hvoted

theorem receive_latest (data : dare_server_data_t) (i : Nat) (w : ctrl_write) :
    (receive data i w).latest_hb_received = data.latest_hb_received := by
  cases w with
  | hb sid => rfl
  | vote_req request => rfl
  | vote_ack commit => rfl

theorem Elections.delivered (hg : Elections cid g) {j : Nat} {w : ctrl_write} {rest : List ctrl_write}
    (hhead : g.wire i j = w :: rest) (hintime : AckInTime g (.deliver i j))
    (hserver : ∀ k, SameControl (Function.update g.server j (receive (g.server j) i w) k) (g'.server k))
    (hmode : ∀ k, g.mode k = .starting → g'.mode k = .starting)
    (hwire : ∀ k l, ∀ w ∈ g'.wire k l, w ∈ g.wire k l) (htrace : g'.trace = g.trace) :
    Elections cid g' := by
  have hmem : w ∈ g.wire i j := hhead ▸ List.mem_cons_self ..
  obtain ⟨hordered, hsid⟩ := hg.toOrdered.delivered hhead hserver hmode hwire htrace
  obtain ⟨hidx, -, hcid, hlog, hrequest, -, hacks⟩ := receive_spec (g.server j) i w
  have hself : SameControl (receive (g.server j) i w) (g'.server j) := by
    have hj := hserver j
    rwa [Function.update_self] at hj
  have hother : ∀ k, k ≠ j → SameControl (g.server k) (g'.server k) := by
    intro k hk
    have hj := hserver k
    rwa [Function.update_of_ne hk] at hj
  refine hg.of_same hordered (fun e he => htrace ▸ he) (fun k => ?_) (fun k l => ?_) hwire
    (fun k => .inl (hsid k)) (fun k hcandidate _ hstands l _ hack => ?_) fun e he => .inl (htrace ▸ he)
  · by_cases hk : k = j
    · rw [hk]
      exact ⟨hself.cid.trans hcid, hself.latest.trans (receive_latest _ i w)⟩
    · exact ⟨(hother k hk).cid, (hother k hk).latest⟩
  · by_cases hl : l = j
    · rw [hl, hself.vote_req]
      refine (hrequest k).imp_right fun ⟨hk, hw⟩ => ?_
      rw [hk] at hw ⊢
      exact hw ▸ hmem
    · rw [(hother l hl).vote_req]
      exact .inl rfl
  · by_cases hk : k = j
    · subst hk
      rw [has_ack_congr hself] at hack
      obtain hsame | ⟨hl, hw⟩ := hacks l
      · rw [has_ack, hidx, hsame, hlog] at hack
        exact .inl hack
      · -- the vote ACK that is delivered
        subst hl
        have hne : l ≠ k := by
          simp only [has_ack, hidx, hg.idx k, Bool.and_eq_true, decide_eq_true_eq] at hack
          exact hack.1
        have hnext : ack_is_next g l k = true := by rw [ack_is_next, hhead, hw]
        exact .inr (hg.voted_for hcandidate hstands hne (hintime hnext hcandidate))
    · rw [has_ack_congr (hother k hk)] at hack
      exact .inl hack

theorem Elections.changed (hg : Elections cid g) (hsame : SameControl (g.server i) data) :
    Elections cid (set_data g i data) := by
  have hself : (set_data g i data).server i = data := by simp [set_data]
  have hservers : ∀ k, SameControl (g.server k) ((set_data g i data).server k) := by
    intro k
    by_cases hk : k = i
    · subst hk
      rw [hself]
      exact hsame
    · simp only [set_data, Function.update_of_ne hk]
      exact .refl _
  obtain ⟨hordered, hsid⟩ := hg.toOrdered.changed (.inl hsame)
  refine hg.of_same hordered (fun _ he => he) (fun k => ⟨(hservers k).cid, (hservers k).latest⟩)
    (fun k j => .inl (by rw [(hservers j).vote_req])) (fun _ _ _ h => h) (fun k => .inl (hsid k))
    (fun k _ _ _ l _ hack => .inl ?_) fun _ he => .inl he
  rwa [has_ack_congr (hservers k)] at hack

/-- The steps after which there is one leader at most in each term: a vote ACK reaches a candidate in time,
    a candidate that has the votes has asked for them in its term, and no election is held in the last
    term. -/
def FairElection (g : group_t) (a : Action) : Prop := AckInTime g a ∧ RequestStands g a ∧ TermLeft g a

/-- Only `poll_vote_count` makes a leader by votes. -/
theorem requestStands_of_votes (hactor : actor a = some i) (hvotes : .votes ∈ causes a)
    (hstands : RequestStands g a) : IS_CANDIDATE (g.server i) = true → has_majority (g.server i) = true →
      ((g.server i).vote_req i).sid = (g.server i).sid := by
  cases a <;> simp [causes, actor] at hvotes hactor
  subst hactor
  exact hstands

theorem Elections.after_step (hg : Elections cid g) (haction : election_action a = true)
    (hfair : FairElection g a) : Elections cid (step g a) := by
  have hmove := step_move g a
  generalize hstep : step g a = g' at hmove ⊢
  cases hmove with
  | idle => exact hg
  | handle hactor hruns hcontract hcause hserver hmode hwire htrace =>
    refine hg.after_handler hruns hcontract (hfair.2.2.hasNext (hstep ▸ htrace) (hg.idx _))
      (fun e he hverified => ?_) (fun e he hvotes => ?_) hserver hmode hwire htrace
    · have hmem := hverified ▸ hcause e he
      cases a <;> simp [causes, election_action] at hmem haction
    · exact requestStands_of_votes hactor (hvotes ▸ hcause e he) hfair.2.1
  | alone hlt hsize hsid hserver hmode hwire htrace =>
    exact hg.after_alone hlt hsize hsid hserver hmode hwire htrace
  | deliver hhead hserver hmode hwire htrace =>
    exact hg.delivered hhead hfair.1 hserver hmode hwire htrace
  | change hsame =>
    obtain hsame | ⟨cid', rfl, -⟩ := hsame
    · exact hg.changed hsame
    · cases haction
  | join => cases haction

theorem elections_init {group_size : UInt8} {server : Nat → dare_server_data_t}
    (hinit : ∀ i, init_server_data i group_size = some (server i)) :
    Elections (server 0).cid (group_init group_size server hinit) := by
  have hfields := fun i => init_server_data_spec (hinit i)
  have hcid : ∀ i, (server i).cid = (server 0).cid ∧ (server i).cid.state = CID_STABLE := by
    have hstate : ∀ (is : List Nat) (cid : dare_cid_t),
        (is.foldl CID_SERVER_ADD cid).state = cid.state := by
      intro is
      induction is with
      | nil => exact fun _ => rfl
      | cons i is ih => exact fun cid => ih _
    intro i
    have h₀ := hinit 0
    have hi := hinit i
    unfold init_server_data at h₀ hi
    split_ifs at h₀ hi
    rw [← Option.some.inj h₀, ← Option.some.inj hi]
    exact ⟨rfl, hstate _ _⟩
  refine ⟨ordered_init hinit, (hcid 0).2, fun i => (hcid i).1, fun i j => .inl ((hfields j).2.2.1 i), nofun,
    fun i => .inl (hfields i).2.2.2.2, nofun, fun i _ => .inl (hfields i).2.1, fun i hcandidate => ?_, nofun,
    fun i hl => ?_⟩
  · have hsid : ((group_init group_size server hinit).server i).sid = SID_NULL := (hfields i).2.1
    have hslot : (((group_init group_size server hinit).server i).vote_req i).sid = 0 := (hfields i).2.2.1 i
    intro hown
    rw [hslot, hsid] at hown
    cases hown
  · have hsid : ((group_init group_size server hinit).server i).sid = SID_NULL := (hfields i).2.1
    rw [hsid] at hl
    cases hl

end steps

/-- The server has the state identifier [term|1|own index]. -/
def leads_term (data : dare_server_data_t) (term : UInt64) : Bool :=
  SID_GET_L data.sid && decide (SID_GET_IDX data.sid = data.idx) && decide (SID_GET_TERM data.sid = term)

/-- One server at most ever leads a term during the run. -/
def OneLeader (g : group_t) (actions : List Action) : Prop :=
  ∀ before after, before <+: actions → after <+: actions → ∀ i j term,
    leads_term ((steps step g before).server i) term = true →
    leads_term ((steps step g after).server j) term = true → i = j

/-- In every run of a group of any size without crashes, in which a vote ACK never reaches a candidate that
    has another state identifier than the voter, a candidate that has the votes still has the request of
    its election, and no election is held in the last term, there is one leader at most in each term. -/
theorem one_leader_per_term {group_size : UInt8} {server : Nat → dare_server_data_t}
    (hinit : ∀ i, init_server_data i group_size = some (server i)) (actions : List Action)
    (haction : ∀ a ∈ actions, election_action a = true)
    (hfair : AllOk step FairElection (group_init group_size server hinit) actions) :
    OneLeader (group_init group_size server hinit) actions := by
  have hok := hfair.and_mem haction
  have hinvariant : ∀ {p : List Action}, p <+: actions →
      Elections (server 0).cid (steps step (group_init group_size server hinit) p) := by
    rintro p ⟨rest, rfl⟩
    exact hok.of_append.invariant (fun g a hg h => hg.after_step h.1 h.2) (elections_init hinit)
  -- whoever leads during the run has won by its end
  have hleads : ∀ {p : List Action} {k : Nat} {term : UInt64}, p <+: actions →
      leads_term ((steps step (group_init group_size server hinit) p).server k) term = true →
      ∃ sid, SID_GET_IDX sid = k ∧ SID_GET_TERM sid = term ∧ Leads (get_group_size (server 0).cid)
        (steps step (group_init group_size server hinit) actions).trace sid := by
    intro p k term hp hk
    have hg := hinvariant hp
    simp only [leads_term, Bool.and_eq_true, decide_eq_true_eq] at hk
    obtain ⟨⟨hl, hidx⟩, hterm⟩ := hk
    refine ⟨_, hidx.trans (hg.idx k), hterm, (hg.leader k hl).mono ?_⟩
    obtain ⟨rest, rfl⟩ := hp
    rw [steps_append]
    exact trace_subset_steps _ rest
  intro before after hbefore hafter i j term hi hj
  obtain ⟨sid, rfl, hterm, hwins⟩ := hleads hbefore hi
  obtain ⟨sid', rfl, hterm', hwins'⟩ := hleads hafter hj
  exact hwins.unique (hinvariant (List.prefix_refl actions)).toInOrder hwins' (hterm.trans hterm'.symm)

instance (g : group_t) : ∀ a, Decidable (AckInTime g a)
  | .deliver _ _ => inferInstanceAs (Decidable (_ → _))
  | .start _ | .hb_receive_cb .. | .hb_send_cb .. | .to_adjust_cb _ | .poll_vote_requests ..
  | .poll_vote_count .. | .fail_ack _ | .connect .. | .log .. | .cid .. | .verify_leadership .. | .join ..
  | .recover_log_cb .. => inferInstanceAs (Decidable True)

instance (g : group_t) : ∀ a, Decidable (RequestStands g a)
  | .poll_vote_count _ _ => inferInstanceAs (Decidable (_ → _))
  | .start _ | .hb_receive_cb .. | .hb_send_cb .. | .to_adjust_cb _ | .poll_vote_requests .. | .deliver ..
  | .fail_ack _ | .connect .. | .log .. | .cid .. | .verify_leadership .. | .join ..
  | .recover_log_cb .. => inferInstanceAs (Decidable True)

instance (g : group_t) (a : Action) : Decidable (FairElection g a) :=
  inferInstanceAs (Decidable (_ ∧ _))

theorem first_leader_is_the_only_one :
    leads_term ((steps step group_of_three first_leader).server 0) 2 = true ∧
      OneLeader group_of_three first_leader :=
  ⟨by decide +kernel, one_leader_per_term server_of_three_init first_leader (by decide) (by decide +kernel)⟩

/-- Server 1 votes for server 0 in the second term. Its vote ACK arrives after server 0 has started the
    election for the third term, for which server 1 then votes for server 2. -/
def late_ack : List Action :=
  [.connect 0 1 true, .connect 1 0 true, .connect 1 2 true, .connect 2 1 true, .start 0, .start 1, .start 2,
    .hb_receive_cb 0 0, .deliver 0 1, .deliver 0 1, .poll_vote_requests 1 0, .hb_receive_cb 0 0, .deliver 1 0,
    .deliver 1 0, .poll_vote_count 0 0, .hb_receive_cb 2 0, .hb_receive_cb 2 0, .deliver 2 1, .deliver 2 1,
    .deliver 2 1, .poll_vote_requests 1 0, .deliver 1 2, .deliver 1 2, .poll_vote_count 2 0]

theorem two_leaders_of_third_term :
    (∀ a ∈ late_ack, election_action a = true) ∧ ¬OneLeader group_of_three late_ack := by
  refine ⟨by decide, fun hone => ?_⟩
  have hsame := hone late_ack late_ack (List.prefix_refl _) (List.prefix_refl _) 0 2 3 (by decide +kernel)
    (by decide +kernel)
  cases hsame

end dare.election
