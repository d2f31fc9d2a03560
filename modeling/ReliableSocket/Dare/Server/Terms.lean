import Mathlib.Data.List.Pairwise
import ReliableSocket.Dare.Server.Moves
import ReliableSocket.Dare.Server.Vote

open dare.log dare.server run

namespace dare.election

section order

variable {data : dare_server_data_t} {sid sid' : UInt64}

theorem term_le_of_le (hle : sid ≤ sid') : SID_GET_TERM sid ≤ SID_GET_TERM sid' := by
  rw [UInt64.le_iff_toNat_le] at hle ⊢
  rw [sid_get_term, sid_get_term]
  omega

theorem le_set_l (sid : UInt64) : sid ≤ SID_SET_L sid := by
  rw [UInt64.le_iff_toNat_le, sid_set_l]
  split <;> omega

/-- In one term the leader flag decides. -/
theorem lt_of_same_term (hterm : SID_GET_TERM sid' = SID_GET_TERM sid) (hl : SID_GET_L sid = false)
    (hl' : SID_GET_L sid' = true) : sid < sid' := by
  have hflag : SID_GET_L sid < SID_GET_L sid' := Bool.lt_iff.mpr ⟨hl, hl'⟩
  exact sid_lt_iff.mpr (.inr ⟨hterm.symm, .inl hflag⟩)

/-- There is a term after the one of the server. -/
def HasNextTerm (data : dare_server_data_t) : Prop := (SID_GET_TERM data.sid).toNat + 1 < 2 ^ 55

theorem election_sid_spec (hidx : data.idx < 256) (hterm : HasNextTerm data) :
    SID_GET_TERM data.sid < SID_GET_TERM (election_sid data) ∧
      SID_GET_IDX (election_sid data) = data.idx := by
  obtain ⟨hnext, -, hown⟩ := election_sid_fields hidx
  rw [Nat.mod_eq_of_lt hterm] at hnext
  refine ⟨?_, hown⟩
  rw [UInt64.lt_iff_toNat_lt, hnext]
  exact Nat.lt_succ_self _

theorem decline_sid_spec (sid' : UInt64) {idx : Nat} (hidx : idx < 256) (hl : SID_GET_L sid = false) :
    SID_GET_TERM (SID_SET_IDX (SID_SET_TERM sid (SID_GET_TERM sid')) idx) = SID_GET_TERM sid' ∧
      SID_GET_IDX (SID_SET_IDX (SID_SET_TERM sid (SID_GET_TERM sid')) idx) = idx ∧
      SID_GET_L (SID_SET_IDX (SID_SET_TERM sid (SID_GET_TERM sid')) idx) = false := by
  obtain ⟨hterm, hflag, hown⟩ := sid_set_idx_fields (SID_SET_TERM sid (SID_GET_TERM sid')) hidx
  refine ⟨?_, hown, ?_⟩
  · rw [hterm, get_term_set_term sid (sid_get_term_lt sid')]
  · rw [hflag, (sid_set_term_fields sid _).2.1, hl]

end order

/-- The writes with which a server enters a new term. -/
def begins_term : cause_t → Bool
  | .start_election | .vote | .decline => true
  | _ => false

/-- What holds of a write to the state identifier and an earlier one. -/
def Later (e e' : event_t) : Prop :=
  e.server = e'.server →
    e'.sid ≤ e.sid ∧ (begins_term e.cause = true → SID_GET_TERM e'.sid < SID_GET_TERM e.sid)

/-- The writes to the state identifiers of all servers, the last one first. A vote is for a candidate, and a
    candidate has no other state identifier in its term until there is a leader. -/
structure InOrder (trace : List event_t) : Prop where
  later : trace.Pairwise Later
  elected : ∀ e ∈ trace, e.cause = .start_election → SID_GET_L e.sid = false ∧ SID_GET_IDX e.sid = e.server
  voted : ∀ e ∈ trace, e.cause = .vote → ⟨SID_GET_IDX e.sid, .start_election, e.sid⟩ ∈ trace
  candidate : ∀ e₀ ∈ trace, e₀.cause = .start_election → ∀ e ∈ trace, e.server = e₀.server →
    SID_GET_TERM e.sid = SID_GET_TERM e₀.sid → SID_GET_L e.sid = false → e.sid = e₀.sid

/-- Two writes with which a server enters the same term are the same write. -/
theorem InOrder.same_of_begins {trace : List event_t} (h : InOrder trace) {e e' : event_t} (he : e ∈ trace)
    (he' : e' ∈ trace) (hserver : e.server = e'.server) (hterm : SID_GET_TERM e.sid = SID_GET_TERM e'.sid)
    (hbegins : begins_term e.cause = true) (hbegins' : begins_term e'.cause = true) : e = e' := by
  by_contra hne
  have hsymm : Std.Symm fun e e' => Later e e' ∨ Later e' e := ⟨fun _ _ => Or.symm⟩
  have hordered : trace.Pairwise fun e e' => Later e e' ∨ Later e' e := h.later.imp Or.inl
  obtain hlater | hlater := hordered.forall he he' hne
  · have hlt := (hlater hserver).2 hbegins
    rw [hterm] at hlt
    exact UInt64.lt_irrefl _ hlt
  · have hlt := (hlater hserver.symm).2 hbegins'
    rw [hterm] at hlt
    exact UInt64.lt_irrefl _ hlt

/-- State identifiers only grow, and everything that a server was told about another one was true when
    it was sent. -/
structure Ordered (g : group_t) : Prop extends InOrder g.trace where
  idx : ∀ i, (g.server i).idx = i
  started : ∀ i, g.mode i ≠ .starting → i < 256 ∧ ∃ cause, ⟨i, cause, (g.server i).sid⟩ ∈ g.trace
  current : ∀ e ∈ g.trace, e.sid ≤ (g.server e.server).sid
  supports : ∀ i, g.mode i ≠ .starting → SID_GET_L (g.server i).sid = false →
    SID_GET_IDX (g.server i).sid = i ∨ ⟨i, .vote, (g.server i).sid⟩ ∈ g.trace
  request : ∀ i j, ((g.server j).vote_req i).sid = 0 ∨
    ⟨i, .start_election, ((g.server j).vote_req i).sid⟩ ∈ g.trace
  wire_request : ∀ i j request, .vote_req request ∈ g.wire i j →
    ⟨i, .start_election, request.sid⟩ ∈ g.trace
  hb : ∀ i j, (g.server j).hb i = 0 ∨ i ≠ j ∧ ∃ cause, ⟨i, cause, (g.server j).hb i⟩ ∈ g.trace
  wire_hb : ∀ i j sid, .hb sid ∈ g.wire i j → i ≠ j ∧ ∃ cause, ⟨i, cause, sid⟩ ∈ g.trace

/-- What server `i` may write to its state identifier. -/
structure Fits (g : group_t) (i : Nat) (cause : cause_t) (sid : UInt64) : Prop where
  le : (g.server i).sid ≤ sid
  fresh : begins_term cause = true → SID_GET_TERM (g.server i).sid < SID_GET_TERM sid
  elected : cause = .start_election → SID_GET_L sid = false ∧ SID_GET_IDX sid = i
  voted : cause = .vote → ⟨SID_GET_IDX sid, .start_election, sid⟩ ∈ g.trace
  declined : cause = .decline → SID_GET_IDX sid = i
  same : begins_term cause = false → SID_GET_L sid = false → sid = (g.server i).sid

section fits

variable {g : group_t} {i : Nat} {r : handled} {cause : cause_t} {sid : UInt64}

/-- A server without the leader flag begins a later term. -/
theorem Fits.begins (hlater : SID_GET_TERM (g.server i).sid < SID_GET_TERM sid) (hbegins : begins_term cause = true)
    (helected : cause = .start_election → SID_GET_L sid = false ∧ SID_GET_IDX sid = i)
    (hvoted : cause = .vote → ⟨SID_GET_IDX sid, .start_election, sid⟩ ∈ g.trace)
    (hdeclined : cause = .decline → SID_GET_IDX sid = i) : Fits g i cause sid where
  le := UInt64.le_of_lt (term_mono hlater)
  fresh _ := hlater
  elected := helected
  voted := hvoted
  declined := hdeclined
  same h := by
    rw [hbegins] at h
    cases h

/-- A server that gets the leader flag does not begin a term. -/
theorem Fits.leads (hle : (g.server i).sid ≤ sid) (hfollows : begins_term cause = false)
    (hl : SID_GET_L sid = true) : Fits g i cause sid where
  le := hle
  fresh h := by
    rw [hfollows] at h
    cases h
  elected h := by
    rw [h] at hfollows
    cases hfollows
  voted h := by
    rw [h] at hfollows
    cases hfollows
  declined h := by
    rw [h] at hfollows
    cases hfollows
  same _ hunset := by
    rw [hl] at hunset
    cases hunset

/-- A request that is not dropped is one of a candidate. -/
theorem Ordered.requested (hg : Ordered g) {k : Nat} (hlt : sid < ((g.server i).vote_req k).sid) :
    ⟨k, .start_election, ((g.server i).vote_req k).sid⟩ ∈ g.trace ∧
      SID_GET_L ((g.server i).vote_req k).sid = false ∧ SID_GET_IDX ((g.server i).vote_req k).sid = k := by
  have hmem := (hg.request k i).resolve_left (lt_ne_zero hlt)
  exact ⟨hmem, hg.elected _ hmem rfl⟩

/-- A voter that hears from its candidate in the same term keeps its state identifier or follows a
    leader. -/
theorem Ordered.fits_adopted (hg : Ordered g) (hmode : g.mode i ≠ .starting)
    (hl : SID_GET_L (g.server i).sid = false) (hsid : sid = (g.server i).hb (SID_GET_IDX (g.server i).sid))
    (hzero : sid ≠ 0) (hterm : SID_GET_TERM sid = SID_GET_TERM (g.server i).sid) :
    Fits g i .heartbeat sid := by
  have hheard := (hg.hb (SID_GET_IDX (g.server i).sid) i).resolve_left (by rw [← hsid]; exact hzero)
  rw [← hsid] at hheard
  obtain ⟨hother, cause, hmem⟩ := hheard
  have hvoted := hg.voted _ ((hg.supports i hmode hl).resolve_left hother) rfl
  have hsame : SID_GET_L sid = false → sid = (g.server i).sid :=
    hg.candidate _ hvoted rfl _ hmem rfl hterm
  refine ⟨?_, nofun, nofun, nofun, nofun, fun _ => hsame⟩
  cases hleader : SID_GET_L sid with
  | false =>
    rw [hsame hleader]
    exact UInt64.le_refl _
  | true => exact UInt64.le_of_lt (lt_of_same_term hterm hl hleader)

/-- What a handler writes fits, if an election is not held in the last term. -/
theorem Ordered.fits (hg : Ordered g) (hsmall : i < 256)
    (hruns : g.mode i ≠ .starting ∨ r.events = [election_event (g.server i)])
    (hwritten : Written (g.server i) r)
    (hterm : r.events = [election_event (g.server i)] → HasNextTerm (g.server i)) :
    r.events = [] ∧ r.data.sid = (g.server i).sid ∨
      ∃ cause, r.events = [⟨i, cause, r.data.sid⟩] ∧ Fits g i cause r.data.sid := by
  have hidx := hg.idx i
  have hsmall' : (g.server i).idx < 256 := by rw [hidx]; exact hsmall
  cases hwritten with
  | kept hevents hsid => exact .inl ⟨hevents, hsid⟩
  | started hevents hsid =>
    obtain ⟨hlater, hown⟩ := election_sid_spec hsmall' (hterm hevents)
    rw [← hsid] at hlater hown
    have hl : SID_GET_L r.data.sid = false := hsid ▸ (election_sid_fields hsmall').2.1
    refine .inr ⟨.start_election, ?_, .begins hlater rfl (fun _ => ⟨hl, hown.trans hidx⟩) ?_ ?_⟩
    · rw [hevents, election_event, hidx, hsid]
    · exact fun h => by cases h
    · exact fun h => by cases h
  | voted k hevents hl hbetter hsid =>
    rw [hidx] at hevents
    rw [hsid] at hbetter
    obtain ⟨hmem, hunset, hcandidate⟩ := hg.requested hbetter
    have hlater := term_lt_of_better hbetter hunset
    rw [← hsid] at hmem hlater hcandidate
    refine .inr ⟨.vote, hevents, .begins hlater rfl ?_ (fun _ => ?_) ?_⟩
    · exact fun h => by cases h
    · rw [hcandidate]
      exact hmem
    · exact fun h => by cases h
  | declined k hevents hl hbetter hsid =>
    rw [hidx] at hevents
    obtain ⟨-, hunset, -⟩ := hg.requested hbetter
    have hlater := term_lt_of_better hbetter hunset
    obtain ⟨hsame, hown, -⟩ := decline_sid_spec ((g.server i).vote_req k).sid hsmall' hl
    rw [← hsid] at hsame hown
    rw [← hsame] at hlater
    refine .inr ⟨.decline, hevents, .begins hlater rfl ?_ ?_ fun _ => hown.trans hidx⟩
    · exact fun h => by cases h
    · exact fun h => by cases h
  | promoted hevents hcandidate hmajority hsid =>
    rw [hidx] at hevents
    refine .inr ⟨.votes, hevents, .leads (hsid ▸ le_set_l _) rfl ?_⟩
    rw [hsid]
    exact (sid_set_l_fields _).2.1
  | adopted hevents hl hsid hzero hsame =>
    rw [hidx] at hevents
    have hmode : g.mode i ≠ .starting := by
      refine hruns.resolve_right fun helection => ?_
      simp [hevents, election_event] at helection
    exact .inr ⟨.heartbeat, hevents, hg.fits_adopted hmode hl hsid hzero hsame⟩
  | followed hevents hbetter hl hsid =>
    rw [hidx] at hevents
    exact .inr ⟨.heartbeat, hevents, .leads (UInt64.le_of_lt hbetter) rfl hl⟩
  | verified hevents hbetter hl =>
    rw [hidx] at hevents
    exact .inr ⟨.verification, hevents, .leads (UInt64.le_of_lt hbetter) rfl hl⟩

theorem Ordered.write (hg : Ordered g)
    (hmode : g.mode i ≠ .starting ∨ begins_term cause = true ∨ SID_GET_L sid = true)
    (hfits : Fits g i cause sid) : InOrder (⟨i, cause, sid⟩ :: g.trace) := by
  have hold : ∀ e ∈ g.trace, e.server = i → SID_GET_TERM e.sid ≤ SID_GET_TERM (g.server i).sid := by
    rintro e he rfl
    exact term_le_of_le (hg.current e he)
  have hnew : begins_term cause = true → ∀ e ∈ g.trace, e.server = i → SID_GET_TERM e.sid < SID_GET_TERM sid :=
    fun hbegins e he hserver => UInt64.lt_of_le_of_lt (hold e he hserver) (hfits.fresh hbegins)
  refine ⟨List.pairwise_cons.mpr ⟨?_, hg.later⟩, ?_, ?_, ?_⟩
  · rintro e he hserver
    refine ⟨?_, fun hbegins => hnew hbegins e he hserver.symm⟩
    have hle := hg.current e he
    rw [← hserver] at hle
    exact UInt64.le_trans hle hfits.le
  · intro e he hcause
    obtain rfl | he := List.mem_cons.mp he
    · exact hfits.elected hcause
    · exact hg.elected e he hcause
  · intro e he hcause
    refine List.mem_cons_of_mem _ ?_
    obtain rfl | he := List.mem_cons.mp he
    · exact hfits.voted hcause
    · exact hg.voted e he hcause
  · intro e₀ he₀ hcause e he hserver hterm hl
    obtain rfl | he₀ := List.mem_cons.mp he₀
    · -- a new candidate: the earlier writes are of earlier terms
      obtain rfl | he := List.mem_cons.mp he
      · rfl
      · have hlt := hnew (by rw [show cause = .start_election from hcause]; rfl) e he hserver
        rw [hterm] at hlt
        exact absurd hlt (UInt64.lt_irrefl _)
    · obtain rfl | he := List.mem_cons.mp he
      · -- a candidate writes again in its term: without a leader it is the same
        have hserver₀ : e₀.server = i := hserver.symm
        cases hbegins : begins_term cause with
        | true =>
          have hlt := hnew hbegins e₀ he₀ hserver₀
          rw [← hterm] at hlt
          exact absurd hlt (UInt64.lt_irrefl _)
        | false =>
          have hsame : sid = (g.server i).sid := hfits.same hbegins hl
          have hrunning : g.mode i ≠ .starting := by
            obtain hmode | hmode | hmode := hmode
            · exact hmode
            · rw [hbegins] at hmode
              cases hmode
            · rw [show SID_GET_L sid = false from hl] at hmode
              cases hmode
          obtain ⟨-, cause', hmem⟩ := hg.started i hrunning
          rw [← hsame] at hmem
          exact hg.candidate e₀ he₀ hcause ⟨i, cause', sid⟩ hmem hserver hterm hl
      · exact hg.candidate e₀ he₀ hcause e he hserver hterm hl

/-- What the other servers see of a handler. -/
theorem Ordered.written {g' : group_t} (hg : Ordered g) (hsmall : i < 256)
    (hruns : g.mode i ≠ .starting ∨ r.events = [election_event (g.server i)])
    (hwritten : Written (g.server i) r)
    (hterm : r.events = [election_event (g.server i)] → HasNextTerm (g.server i))
    (htrace : g'.trace = r.events ++ g.trace) :
    InOrder g'.trace ∧ (g.server i).sid ≤ r.data.sid ∧
      (∀ e ∈ g'.trace, e ∈ g.trace ∨ e.server = i ∧ e.sid = r.data.sid) ∧
      (∃ cause, ⟨i, cause, r.data.sid⟩ ∈ g'.trace) ∧
      (r.events = [election_event (g.server i)] → ⟨i, .start_election, r.data.sid⟩ ∈ g'.trace) ∧
      (SID_GET_L r.data.sid = false →
        SID_GET_IDX r.data.sid = i ∨ ⟨i, .vote, r.data.sid⟩ ∈ g'.trace) := by
  obtain ⟨hevents, hsid⟩ | ⟨cause, hevents, hfits⟩ := hg.fits hsmall hruns hwritten hterm
  · have hmode : g.mode i ≠ .starting := hruns.resolve_right (by simp [hevents])
    rw [hevents, List.nil_append] at htrace
    rw [htrace, hsid]
    refine ⟨hg.toInOrder, UInt64.le_refl _, fun e he => .inl he, (hg.started i hmode).2, fun h => ?_,
      hg.supports i hmode⟩
    rw [hevents] at h
    cases h
  · rw [hevents, List.singleton_append] at htrace
    have hmode : g.mode i ≠ .starting ∨ begins_term cause = true ∨ SID_GET_L r.data.sid = true := by
      refine hruns.imp_right fun h => .inl ?_
      rw [hevents, election_event] at h
      simp only [List.cons.injEq, event_t.mk.injEq, and_true] at h
      rw [h.2.1]
      rfl
    rw [htrace]
    refine ⟨hg.write hmode hfits, hfits.le, fun e he => ?_, ⟨cause, List.mem_cons_self ..⟩, fun h => ?_,
      fun hl => ?_⟩
    · obtain rfl | he := List.mem_cons.mp he
      · exact .inr ⟨rfl, rfl⟩
      · exact .inl he
    · rw [hevents, election_event] at h
      simp only [List.cons.injEq, event_t.mk.injEq, and_true] at h
      rw [← h.2.1]
      exact List.mem_cons_self ..
    · cases hcause : cause with
      | start_election => exact .inl (hfits.elected hcause).2
      | vote => exact .inr (List.mem_cons_self ..)
      | decline => exact .inl (hfits.declined hcause)
      | _ =>
        have hsame : r.data.sid = (g.server i).sid := hfits.same (by rw [hcause]; rfl) hl
        have hrunning : g.mode i ≠ .starting := by
          obtain hmode | hmode | hmode := hmode
          · exact hmode
          · rw [hcause] at hmode
            cases hmode
          · rw [hl] at hmode
            cases hmode
        rw [hsame] at hl ⊢
        exact (hg.supports i hrunning hl).imp_right (List.mem_cons_of_mem _)

end fits

section steps

variable {g g' : group_t} {a : Action} {i : Nat} {r : handled} {data : dare_server_data_t}

theorem no_hb_in_election (data : dare_server_data_t) (k : Nat) (sid : UInt64) :
    (k, .hb sid) ∉ (start_election data).posted := by
  simp [start_election, rc_send_vote_request]

theorem lt_of_lt_group {cid : dare_cid_t} (hlt : i < get_group_size cid) : i < 256 := by
  have h₀ := cid.size_0.toNat_lt
  have h₁ := cid.size_1.toNat_lt
  unfold get_group_size at hlt
  split_ifs at hlt <;> omega

/-- What keeps the group ordered: new writes to state identifiers are in order and current, and whatever
    a server is told comes from the wire, or is the last write of the sender. -/
theorem Ordered.of_changes (hg : Ordered g) (horder : InOrder g'.trace)
    (hsubset : ∀ e ∈ g.trace, e ∈ g'.trace) (hidx : ∀ k, (g'.server k).idx = (g.server k).idx)
    (hle : ∀ k, (g.server k).sid ≤ (g'.server k).sid)
    (hnew : ∀ e ∈ g'.trace, e ∈ g.trace ∨ e.sid = (g'.server e.server).sid)
    (hstarted : ∀ k, g'.mode k ≠ .starting →
      g.mode k ≠ .starting ∧ (g'.server k).sid = (g.server k).sid ∨
      k < 256 ∧ (∃ cause, ⟨k, cause, (g'.server k).sid⟩ ∈ g'.trace) ∧
        (SID_GET_L (g'.server k).sid = false →
          SID_GET_IDX (g'.server k).sid = k ∨ ⟨k, .vote, (g'.server k).sid⟩ ∈ g'.trace))
    (hrequest : ∀ i j, ((g'.server j).vote_req i).sid = 0 ∨
      (g'.server j).vote_req i = (g.server j).vote_req i ∨ .vote_req ((g'.server j).vote_req i) ∈ g.wire i j ∨
      ⟨i, .start_election, ((g'.server j).vote_req i).sid⟩ ∈ g'.trace)
    (hwire_request : ∀ i j request, .vote_req request ∈ g'.wire i j →
      .vote_req request ∈ g.wire i j ∨ ⟨i, .start_election, request.sid⟩ ∈ g'.trace)
    (hhb : ∀ i j, (g'.server j).hb i = 0 ∨ (g'.server j).hb i = (g.server j).hb i ∨
      .hb ((g'.server j).hb i) ∈ g.wire i j)
    (hwire_hb : ∀ i j sid, .hb sid ∈ g'.wire i j →
      .hb sid ∈ g.wire i j ∨ i ≠ j ∧ ∃ cause, ⟨i, cause, sid⟩ ∈ g.trace) : Ordered g' := by
  refine ⟨horder, ?_, ?_, ?_, ?_, ?_, ?_, ?_, ?_⟩
  · exact fun k => (hidx k).trans (hg.idx k)
  · intro k hk
    obtain ⟨hrunning, hsid⟩ | ⟨hlt, hevent, -⟩ := hstarted k hk
    · obtain ⟨hlt, cause, hmem⟩ := hg.started k hrunning
      rw [hsid]
      exact ⟨hlt, cause, hsubset _ hmem⟩
    · exact ⟨hlt, hevent⟩
  · intro e he
    obtain hold | hsid := hnew e he
    · exact UInt64.le_trans (hg.current e hold) (hle e.server)
    · rw [hsid]
      exact UInt64.le_refl _
  · intro k hk hl
    obtain ⟨hrunning, hsid⟩ | ⟨-, -, hsupports⟩ := hstarted k hk
    · rw [hsid] at hl ⊢
      exact (hg.supports k hrunning hl).imp_right (hsubset _)
    · exact hsupports hl
  · intro i j
    obtain hzero | hsame | hmem | hmem := hrequest i j
    · exact .inl hzero
    · rw [hsame]
      exact (hg.request i j).imp_right (hsubset _)
    · exact .inr (hsubset _ (hg.wire_request i j _ hmem))
    · exact .inr hmem
  · intro i j request hmem
    obtain hold | hevent := hwire_request i j request hmem
    · exact hsubset _ (hg.wire_request i j request hold)
    · exact hevent
  · intro i j
    obtain hzero | hsame | hmem := hhb i j
    · exact .inl hzero
    · rw [hsame]
      exact (hg.hb i j).imp_right fun ⟨hne, cause, hmem⟩ => ⟨hne, cause, hsubset _ hmem⟩
    · obtain ⟨hne, cause, hevent⟩ := hg.wire_hb i j _ hmem
      exact .inr ⟨hne, cause, hsubset _ hevent⟩
  · intro i j sid hmem
    obtain hold | ⟨hne, cause, hevent⟩ := hwire_hb i j sid hmem
    · obtain ⟨hne, cause, hevent⟩ := hg.wire_hb i j sid hold
      exact ⟨hne, cause, hsubset _ hevent⟩
    · exact ⟨hne, cause, hsubset _ hevent⟩

theorem server_update_cases {data : dare_server_data_t} (hserver : g'.server = Function.update g.server i data)
    (k : Nat) : k = i ∧ g'.server k = data ∨ k ≠ i ∧ g'.server k = g.server k := by
  by_cases hk : k = i
  · exact .inl ⟨hk, by rw [hserver, hk, Function.update_self]⟩
  · exact .inr ⟨hk, by rw [hserver, Function.update_of_ne hk]⟩

theorem sid_le_of_update {data : dare_server_data_t} (hserver : g'.server = Function.update g.server i data)
    (hle : (g.server i).sid ≤ data.sid) (k : Nat) : (g.server k).sid ≤ (g'.server k).sid := by
  obtain ⟨rfl, hk⟩ | ⟨-, hk⟩ := server_update_cases hserver k
  · rw [hk]
    exact hle
  · rw [hk]
    exact UInt64.le_refl _

theorem Ordered.after_handler (hg : Ordered g)
    (hruns : g.mode i ≠ .starting ∨
      i < get_group_size (g.server i).cid ∧ r = start_election (g.server i))
    (hcontract : Contract (g.server i) r)
    (hterm : r.events = [election_event (g.server i)] → HasNextTerm (g.server i))
    (hserver : g'.server = Function.update g.server i r.data) (hmode : ∀ k ≠ i, g'.mode k = g.mode k)
    (hwire : ∀ k l w, w ∈ g'.wire k l → w ∈ g.wire k l ∨ k = i ∧ (l, w) ∈ r.posted)
    (htrace : g'.trace = r.events ++ g.trace) :
    Ordered g' ∧ ∀ k, (g.server k).sid ≤ (g'.server k).sid := by
  have hidx := hg.idx i
  have hsmall : i < 256 := hruns.elim (fun h => (hg.started i h).1) fun h => lt_of_lt_group h.1
  obtain ⟨horder, hle, hnew, hown, helection, hsupports⟩ :=
    hg.written hsmall (hruns.imp_right fun h => by rw [h.2]; rfl) hcontract.sid hterm htrace
  have hcases := server_update_cases hserver
  have hgrows := sid_le_of_update hserver hle
  refine ⟨hg.of_changes horder (fun e he => htrace ▸ List.mem_append_right _ he) ?_ hgrows ?_ ?_ ?_ ?_ ?_ ?_,
    hgrows⟩
  · intro k
    obtain ⟨rfl, hk⟩ | ⟨-, hk⟩ := hcases k
    · rw [hk, hcontract.idx]
    · rw [hk]
  · intro e he
    refine (hnew e he).imp_right fun ⟨hi, hsid⟩ => ?_
    rw [hsid, hi, hserver, Function.update_self]
  · intro k hrunning
    obtain ⟨rfl, hk⟩ | ⟨hne, hk⟩ := hcases k
    · rw [hk]
      exact .inr ⟨hsmall, hown, hsupports⟩
    · rw [hmode k hne] at hrunning
      exact .inl ⟨hrunning, by rw [hk]⟩
  · intro k j
    obtain ⟨rfl, hj⟩ | ⟨-, hj⟩ := hcases j
    · rw [hj]
      obtain hsame | hzero | ⟨hk, hevents, hsid, -⟩ := hcontract.vote_req k
      · exact .inr (.inl hsame)
      · exact .inl hzero
      · rw [hsid, hk, hidx]
        exact .inr (.inr (.inr (helection hevents)))
    · rw [hj]
      exact .inr (.inl rfl)
  · intro k j request hmem
    refine (hwire _ _ _ hmem).imp_right fun ⟨hk, hposted⟩ => ?_
    obtain ⟨-, hevents, hsid, -⟩ := hcontract.posted_req j request hposted
    rw [hk, hsid]
    exact helection hevents
  · intro k j
    obtain ⟨rfl, hj⟩ | ⟨-, hj⟩ := hcases j
    · rw [hj]
      exact (hcontract.hb k).symm.imp_right .inl
    · rw [hj]
      exact .inr (.inl rfl)
  · intro k j sid hmem
    refine (hwire _ _ _ hmem).imp_right fun ⟨hk, hposted⟩ => ?_
    obtain ⟨hne, hsid⟩ := hcontract.posted_hb j sid hposted
    have hrunning : g.mode i ≠ .starting := by
      refine hruns.resolve_right fun h => ?_
      rw [h.2] at hposted
      exact no_hb_in_election _ j sid hposted
    rw [hidx] at hne
    rw [hk, hsid]
    exact ⟨hne.symm, (hg.started i hrunning).2⟩

/-- A server that is alone leads the first term. -/
theorem alone_sid_spec (hsid : data.sid = SID_NULL) :
    data.sid ≤ alone_sid data ∧ SID_GET_L (alone_sid data) = true ∧ SID_GET_IDX (alone_sid data) = 0 := by
  rw [alone_sid, hsid]
  decide

theorem Ordered.after_alone (hg : Ordered g) (hlt : i < get_group_size (g.server i).cid)
    (hsid : (g.server i).sid = SID_NULL)
    (hserver : g'.server = Function.update g.server i { g.server i with sid := alone_sid (g.server i) })
    (hmode : g'.mode = g.mode) (hwire : g'.wire = g.wire)
    (htrace : g'.trace = ⟨i, .alone, alone_sid (g.server i)⟩ :: g.trace) :
    Ordered g' ∧ ∀ k, (g.server k).sid ≤ (g'.server k).sid := by
  obtain ⟨hle, hl, -⟩ := alone_sid_spec hsid
  have hfits : Fits g i .alone (alone_sid (g.server i)) := by
    refine ⟨hle, nofun, nofun, nofun, nofun, fun _ hunset => ?_⟩
    rw [hl] at hunset
    cases hunset
  have hcases := server_update_cases hserver
  have hgrows := sid_le_of_update hserver hle
  refine ⟨hg.of_changes (htrace ▸ hg.write (.inr (.inr hl)) hfits)
    (fun e he => htrace ▸ List.mem_cons_of_mem _ he) ?_ hgrows ?_ ?_ ?_ ?_ ?_ ?_, hgrows⟩
  · intro k
    obtain ⟨rfl, hk⟩ | ⟨-, hk⟩ := hcases k
    · rw [hk]
    · rw [hk]
  · intro e he
    rw [htrace] at he
    obtain rfl | he := List.mem_cons.mp he
    · right
      rw [hserver, Function.update_self]
    · exact .inl he
  · intro k hrunning
    obtain ⟨rfl, hk⟩ | ⟨-, hk⟩ := hcases k
    · rw [hk, htrace]
      exact .inr ⟨lt_of_lt_group hlt, ⟨.alone, List.mem_cons_self ..⟩, fun hunset => by
        rw [hl] at hunset
        cases hunset⟩
    · rw [hmode] at hrunning
      exact .inl ⟨hrunning, by rw [hk]⟩
  · intro k j
    obtain ⟨rfl, hj⟩ | ⟨-, hj⟩ := hcases j
    · rw [hj]
      exact .inr (.inl rfl)
    · rw [hj]
      exact .inr (.inl rfl)
  · intro k j request hmem
    rw [hwire] at hmem
    exact .inl hmem
  · intro k j
    obtain ⟨rfl, hj⟩ | ⟨-, hj⟩ := hcases j
    · rw [hj]
      exact .inr (.inl rfl)
    · rw [hj]
      exact .inr (.inl rfl)
  · intro k j sid hmem
    rw [hwire] at hmem
    exact .inl hmem

/-- Steps that write no state identifier, with the requests and heartbeats that they deliver. -/
theorem Ordered.unwritten (hg : Ordered g) (hidx : ∀ k, (g'.server k).idx = (g.server k).idx)
    (hsid : ∀ k, (g'.server k).sid = (g.server k).sid)
    (hrequest : ∀ i j, (g'.server j).vote_req i = (g.server j).vote_req i ∨
      .vote_req ((g'.server j).vote_req i) ∈ g.wire i j)
    (hhb : ∀ i j, (g'.server j).hb i = (g.server j).hb i ∨ .hb ((g'.server j).hb i) ∈ g.wire i j)
    (hmode : ∀ k, g.mode k = .starting → g'.mode k = .starting)
    (hwire : ∀ k l, ∀ w ∈ g'.wire k l, w ∈ g.wire k l) (htrace : g'.trace = g.trace) : Ordered g' :=
  hg.of_changes (htrace ▸ hg.toInOrder) (fun e he => htrace ▸ he) hidx
    (fun k => by rw [hsid]; exact UInt64.le_refl _) (fun e he => .inl (htrace ▸ he))
    (fun k hk => .inl ⟨mt (hmode k) hk, hsid k⟩)
    (fun i j => .inr ((hrequest i j).imp_right .inl)) (fun i j request hmem => .inl (hwire i j _ hmem))
    (fun i j => .inr (hhb i j)) fun i j sid hmem => .inl (hwire i j _ hmem)

theorem receive_spec (data : dare_server_data_t) (i : Nat) (w : ctrl_write) :
    (receive data i w).idx = data.idx ∧ (receive data i w).sid = data.sid ∧
      (receive data i w).cid = data.cid ∧ (receive data i w).log = data.log ∧
      (∀ k, (receive data i w).vote_req k = data.vote_req k ∨
        k = i ∧ w = .vote_req ((receive data i w).vote_req k)) ∧
      (∀ k, (receive data i w).hb k = data.hb k ∨ k = i ∧ w = .hb ((receive data i w).hb k)) ∧
      ∀ k, (receive data i w).vote_ack k = data.vote_ack k ∨
        k = i ∧ w = .vote_ack ((receive data i w).vote_ack k) := by
  have hslot : ∀ {β : Type} (f : Nat → β) (x : β) (k : Nat), Function.update f i x k = f k ∨
      k = i ∧ x = Function.update f i x k := by
    intro β f x k
    by_cases hk : k = i
    · subst hk
      rw [Function.update_self]
      exact .inr ⟨rfl, rfl⟩
    · rw [Function.update_of_ne hk]
      exact .inl rfl
  cases w with
  | hb sid =>
    refine ⟨rfl, rfl, rfl, rfl, fun _ => .inl rfl, fun k => ?_, fun _ => .inl rfl⟩
    exact (hslot data.hb sid k).imp_right fun ⟨hk, h⟩ => ⟨hk, congrArg ctrl_write.hb h⟩
  | vote_req request =>
    refine ⟨rfl, rfl, rfl, rfl, fun k => ?_, fun _ => .inl rfl, fun _ => .inl rfl⟩
    exact (hslot data.vote_req request k).imp_right fun ⟨hk, h⟩ => ⟨hk, congrArg ctrl_write.vote_req h⟩
  | vote_ack commit =>
    refine ⟨rfl, rfl, rfl, rfl, fun _ => .inl rfl, fun _ => .inl rfl, fun k => ?_⟩
    exact (hslot data.vote_ack commit k).imp_right fun ⟨hk, h⟩ => ⟨hk, congrArg ctrl_write.vote_ack h⟩

theorem Ordered.delivered (hg : Ordered g) {j : Nat} {w : ctrl_write} {rest : List ctrl_write}
    (hhead : g.wire i j = w :: rest)
    (hserver : ∀ k, SameControl (Function.update g.server j (receive (g.server j) i w) k) (g'.server k))
    (hmode : ∀ k, g.mode k = .starting → g'.mode k = .starting)
    (hwire : ∀ k l, ∀ w ∈ g'.wire k l, w ∈ g.wire k l) (htrace : g'.trace = g.trace) :
    Ordered g' ∧ ∀ k, (g'.server k).sid = (g.server k).sid := by
  have hmem : w ∈ g.wire i j := hhead ▸ List.mem_cons_self ..
  obtain ⟨hidx, hsid, -, -, hrequest, hhb, -⟩ := receive_spec (g.server j) i w
  have hcases : ∀ k, k = j ∧ SameControl (receive (g.server j) i w) (g'.server k) ∨
      k ≠ j ∧ SameControl (g.server k) (g'.server k) := by
    intro k
    have hk := hserver k
    by_cases hkj : k = j
    · subst hkj
      rw [Function.update_self] at hk
      exact .inl ⟨rfl, hk⟩
    · rw [Function.update_of_ne hkj] at hk
      exact .inr ⟨hkj, hk⟩
  have hsids : ∀ k, (g'.server k).sid = (g.server k).sid := by
    intro k
    obtain ⟨rfl, hk⟩ | ⟨-, hk⟩ := hcases k
    · exact hk.sid.trans hsid
    · exact hk.sid
  refine ⟨hg.unwritten (fun k => ?_) hsids (fun k l => ?_) (fun k l => ?_) hmode hwire htrace, hsids⟩
  · obtain ⟨rfl, hk⟩ | ⟨-, hk⟩ := hcases k
    · exact hk.idx.trans hidx
    · exact hk.idx
  · obtain ⟨rfl, hl⟩ | ⟨-, hl⟩ := hcases l
    · rw [hl.vote_req]
      refine (hrequest k).imp_right fun ⟨hk, hw⟩ => ?_
      rw [hk] at hw ⊢
      exact hw ▸ hmem
    · rw [hl.vote_req]
      exact .inl rfl
  · obtain ⟨rfl, hl⟩ | ⟨-, hl⟩ := hcases l
    · rw [hl.hb]
      refine (hhb k).imp_right fun ⟨hk, hw⟩ => ?_
      rw [hk] at hw ⊢
      exact hw ▸ hmem
    · rw [hl.hb]
      exact .inl rfl

theorem Ordered.changed (hg : Ordered g)
    (hsame : SameControl (g.server i) data ∨ ∃ cid, SameControl { g.server i with cid := cid } data) :
    Ordered (set_data g i data) ∧ ∀ k, ((set_data g i data).server k).sid = (g.server k).sid := by
  have hfields : data.idx = (g.server i).idx ∧ data.sid = (g.server i).sid ∧
      data.vote_req = (g.server i).vote_req ∧ data.hb = (g.server i).hb := by
    obtain hsame | ⟨cid, hsame⟩ := hsame
    · exact ⟨hsame.idx, hsame.sid, hsame.vote_req, hsame.hb⟩
    · exact ⟨hsame.idx, hsame.sid, hsame.vote_req, hsame.hb⟩
  obtain ⟨hidx, hsid, hrequest, hhb⟩ := hfields
  have hfield : ∀ {β : Type} (f : dare_server_data_t → β), f data = f (g.server i) → ∀ k,
      f ((set_data g i data).server k) = f (g.server k) := by
    intro β f hf k
    by_cases hk : k = i
    · subst hk
      simpa [set_data] using hf
    · simp [set_data, hk]
  have hsids := hfield (·.sid) hsid
  refine ⟨hg.unwritten (hfield (·.idx) hidx) hsids (fun k l => .inl ?_) (fun k l => .inl ?_)
    (fun _ h => h) (fun _ _ _ h => h) rfl, hsids⟩
  · exact congrFun (hfield (·.vote_req) hrequest l) k
  · exact congrFun (hfield (·.hb) hhb l) k

/-- No server joins, and none is recovered. -/
def crash_free : Action → Bool
  | .join .. => false
  | _ => true

/-- The writes to state identifiers in a step. -/
def new_events (g : group_t) (a : Action) : List event_t :=
  (step g a).trace.take ((step g a).trace.length - g.trace.length)

/-- No server that starts an election in this step is in the last term. -/
def TermLeft (g : group_t) (a : Action) : Prop :=
  ∀ e ∈ new_events g a, e.cause = .start_election → HasNextTerm (g.server e.server)

instance (g : group_t) (a : Action) : Decidable (TermLeft g a) :=
  have : ∀ i, Decidable (HasNextTerm (g.server i)) := fun _ => Nat.decLt _ _
  inferInstanceAs (Decidable (∀ e ∈ new_events g a, _ → _))

theorem TermLeft.hasNext (hterm : TermLeft g a) (htrace : (step g a).trace = r.events ++ g.trace)
    (hidx : (g.server i).idx = i) (hevents : r.events = [election_event (g.server i)]) :
    HasNextTerm (g.server i) := by
  have hnew : new_events g a = [election_event (g.server i)] := by simp [new_events, htrace, hevents]
  have hnext := hterm (election_event (g.server i)) (hnew ▸ List.mem_singleton_self _) rfl
  rwa [election_event, hidx] at hnext

theorem Ordered.after_step (hg : Ordered g) (hfree : crash_free a = true) (hterm : TermLeft g a) :
    Ordered (step g a) ∧ ∀ k, (g.server k).sid ≤ ((step g a).server k).sid := by
  have hkeeps : ∀ {g' : group_t}, (Ordered g' ∧ ∀ k, (g'.server k).sid = (g.server k).sid) →
      Ordered g' ∧ ∀ k, (g.server k).sid ≤ (g'.server k).sid :=
    fun ⟨hg', hsid⟩ => ⟨hg', fun k => by rw [hsid]; exact UInt64.le_refl _⟩
  have hmove := step_move g a
  generalize hstep : step g a = g' at hmove ⊢
  cases hmove with
  | idle => exact ⟨hg, fun _ => UInt64.le_refl _⟩
  | handle hactor hruns hcontract hcause hserver hmode hwire htrace =>
    exact hg.after_handler hruns hcontract (hterm.hasNext (hstep ▸ htrace) (hg.idx _)) hserver hmode hwire
      htrace
  | alone hlt hsize hsid hserver hmode hwire htrace =>
    exact hg.after_alone hlt hsid hserver hmode hwire htrace
  | deliver hhead hserver hmode hwire htrace =>
    exact hkeeps (hg.delivered hhead hserver hmode hwire htrace)
  | change hsame => exact hkeeps (hg.changed (hsame.imp_right fun ⟨cid, _, h⟩ => ⟨cid, h⟩))
  | join => cases hfree

theorem ordered_init {group_size : UInt8} {server : Nat → dare_server_data_t}
    (hinit : ∀ i, init_server_data i group_size = some (server i)) :
    Ordered (group_init group_size server hinit) := by
  have hfields := fun i => init_server_data_spec (hinit i)
  exact ⟨⟨List.Pairwise.nil, nofun, nofun, nofun⟩, fun i => (hfields i).1, fun i h => absurd rfl h, nofun,
    fun i h => absurd rfl h, fun i j => .inl ((hfields j).2.2.1 i), nofun,
    fun i j => .inl ((hfields j).2.2.2.1 i), nofun⟩

end steps

end dare.election
