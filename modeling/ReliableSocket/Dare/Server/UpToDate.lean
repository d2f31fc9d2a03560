import ReliableSocket.Dare.Log.Index
import ReliableSocket.Dare.Log.Leads
import ReliableSocket.Dare.Server.Handlers

open memory ring dare.log dare.server

namespace dare.election

/-- The log of a server with the entries `live`, of which `k` are committed. The cached tail is the place
    of the last entry, or it is reset, as `hb_receive_cb` does. -/
inductive LocalLog (log : dare_log_t) : List dare_log_entry_t → Nat → Prop
  | empty (hend : log.end_ = log.len) (htail : log.tail = log.len) : LocalLog log [] 0
  | entries {es : List dare_log_entry_t} {x : dare_log_entry_t} {k : Nat}
      (hleads : Leads log log.head (es ++ [x])) (hk : k ≤ (es ++ [x]).length)
      (hcommit : entry_format.AtRecord log.len log.head (es ++ [x]) k log.commit)
      (happly : AtBoundary log (es ++ [x]) log.apply)
      (htail : log.tail = log.len ∨ log.end_ ≠ log.len ∧
        log.tail = entry_format.place log.len (entry_format.advance log.len log.head es) x) :
      LocalLog log (es ++ [x]) k

/-- Index and term of the last entry; zero if there is none. -/
def last_of (live : List dare_log_entry_t) : UInt64 × UInt64 :=
  match live.getLast? with
  | none => (0, 0)
  | some x => (x.idx, x.term)

@[simp] theorem last_of_append (es : List dare_log_entry_t) (x : dare_log_entry_t) :
    last_of (es ++ [x]) = (x.idx, x.term) := by
  simp [last_of]

/-- The determinants of `n` entries, if the server publishes any, do not reach the circular buffer. -/
def DeterminantsFit (data : dare_server_data_t) (n : Nat) : Prop :=
  data.idx < MAX_SERVER_COUNT ∧
    (log_offset_end_distance data.log data.log.commit ≠ 0 → nc_det_addr data.idx n ≤ ENTRIES_OFFSET)

/-- A server only votes for a candidate of a higher term whose log is not behind the entry `last`. -/
def UpToDateVote (data : dare_server_data_t) (value : Nat) (last : UInt64 × UInt64) : Prop :=
  ∀ sid, ⟨data.idx, .vote, sid⟩ ∈ (poll_vote_requests data value).events →
    SID_GET_TERM data.sid < SID_GET_TERM sid ∧
      ∃ i, sid = (data.vote_req i).sid ∧ AtLeast (data.vote_req i) last

section vote

variable {data : dare_server_data_t} {value : Nat} {sid : UInt64}

/-- A vote is for a request with a better SID that is not behind the last entry the voter finds. -/
theorem vote_for_best (hvote : ⟨data.idx, .vote, sid⟩ ∈ (poll_vote_requests data value).events) :
    SID_SET_L data.sid < sid ∧
      ∃ i, sid = (data.vote_req i).sid ∧ AtLeast (data.vote_req i) (voter_last_entry data) := by
  unfold poll_vote_requests at hvote
  by_cases hl : SID_GET_L data.sid = true
  · rw [if_pos hl] at hvote
    exact absurd hvote List.not_mem_nil
  rw [if_neg hl] at hvote
  simp only at hvote
  by_cases hhb : data.hb (SID_GET_IDX data.sid) ≠ 0 ∧
      SID_GET_TERM (data.hb (SID_GET_IDX data.sid)) = SID_GET_TERM data.sid
  · rw [if_pos hhb] at hvote
    simp at hvote
  rw [if_neg hhb] at hvote
  have hbest := bestSid_loop data (List.range (get_group_size data.cid))
  generalize (List.range (get_group_size data.cid)).foldl (find_best_sid data.idx)
    (SID_SET_L data.sid, data.vote_req) = best at hbest hvote
  by_cases hnone : best.1 = SID_SET_L data.sid
  · rw [if_pos hnone] at hvote
    exact absurd hvote List.not_mem_nil
  rw [if_neg hnone] at hvote
  have hdropped : Dropped data { data with vote_req := best.2 } :=
    ⟨⟨rfl, rfl, rfl, rfl, rfl⟩, hbest.drops, fun _ => .inl rfl, .inl rfl⟩
  have hfound : ∃ i, SID_SET_L data.sid < (data.vote_req i).sid ∧ best.1 = (data.vote_req i).sid := by
    obtain ⟨hlt, i, -, hi⟩ := hbest.best.resolve_left hnone
    exact ⟨i, hi ▸ hlt, hi⟩
  obtain ⟨hscan, -⟩ := choose_candidate_spec hdropped hfound
  change BestRequest data (voter_last_entry data) _ at hscan
  generalize choose_candidate { data with vote_req := best.2 } best.1 = chosen at hscan hvote
  by_cases hown : chosen.1.best.sid = SID_SET_L data.sid
  · rw [if_pos hown] at hvote
    simp [decline_vote] at hvote
  · rw [if_neg hown, cast_vote_events, List.mem_singleton, event_t.mk.injEq] at hvote
    obtain ⟨-, -, rfl⟩ := hvote
    obtain ⟨hbetter, i, hi⟩ := hscan.best.resolve_left hown
    have hlast := hscan.atLeast
    rw [hi] at hlast ⊢
    exact ⟨hi ▸ hbetter, i, rfl, hlast⟩

end vote

section last_entry

variable {log : dare_log_t} {x : dare_log_entry_t}

theorem last_entry_at_tail (hlast : Leads log (log_get_tail log) [x]) (hend : log.end_ ≠ log.len) :
    last_entry log = (x.idx, x.term) := by
  have hheader := hlast.header_at_met
  rw [last_entry, get_entry_of_distance (hlast.last_distance hend)]
  exact Prod.ext hheader.idx hheader.term

end last_entry

section voter

variable {data : dare_server_data_t} {live : List dare_log_entry_t} {k : Nat}

/-- What a voter finds once it has published its entries. -/
theorem voter_last_entry_eq {log : dare_log_t} (hpublish : log_entries_to_nc_buf data.log data.idx = some log) :
    voter_last_entry data =
      if nc_buf_len log data.idx = 0 then
        if log_get_tail log = log.len then (0, 0) else last_entry log
      else
        ((nc_buf_det log data.idx (nc_buf_len log data.idx - 1)).idx,
          (nc_buf_det log data.idx (nc_buf_len log data.idx - 1)).term) := by
  have hlog : (publish_nc_buf (rc_revoke_log_access data)).log = log := by
    change (log_entries_to_nc_buf data.log data.idx).getD data.log = log
    rw [hpublish]
    rfl
  have hidx : (publish_nc_buf (rc_revoke_log_access data)).idx = data.idx := rfl
  simp only [voter_last_entry, local_last_entry, hlog, hidx]

/-- A voter that publishes entries finds the last one of them. -/
theorem voter_last_entry_of_published {es : List dare_log_entry_t} {x : dare_log_entry_t}
    (hreads : Reads data.log data.log.commit (es ++ [x]))
    (hfits : nc_det_addr data.idx (es ++ [x]).length ≤ ENTRIES_OFFSET) :
    voter_last_entry data = (x.idx, x.term) := by
  obtain ⟨m, hpublish, -, hrecords⟩ := log_entries_to_nc_buf_reads hreads hfits
  have hlength : nc_buf_len { data.log with mem := m } data.idx = es.length + 1 := by
    rw [hrecords.nc_len, List.length_append, List.length_singleton]
  have hdet := hrecords.det es.length (by simp)
  rw [voter_last_entry_eq hpublish, hlength, if_neg (Nat.succ_ne_zero _), Nat.add_sub_cancel, hdet]
  simp

/-- A voter that publishes no entry looks for its tail. -/
theorem voter_last_entry_of_none (hidx : nc_det_addr data.idx 0 ≤ ENTRIES_OFFSET)
    (hdist : log_offset_end_distance data.log data.log.commit = 0) :
    ∃ m, ({ data.log with mem := m } : dare_log_t).entries = data.log.entries ∧
      voter_last_entry data = if log_get_tail { data.log with mem := m } = data.log.len then (0, 0)
        else last_entry { data.log with mem := m } := by
  obtain ⟨m, hpublish, hentries, hrecords⟩ := log_entries_to_nc_buf_reads (reads_none hdist) hidx
  refine ⟨m, hentries, ?_⟩
  rw [voter_last_entry_eq hpublish, hrecords.nc_len, List.length_nil, if_pos rfl]

theorem finds_of_empty {log : dare_log_t} (hend : log.end_ = log.len) (htail : log.tail = log.len) :
    ¬FindsEntry log := by
  simp [FindsEntry, log_offset_end_distance, hend, htail]

/-- A voter finds the last entry of its log, if it finds one. -/
theorem voter_last_entry_of_finds (hlog : LocalLog data.log live k)
    (hfits : DeterminantsFit data (live.length - k)) (hfinds : FindsEntry data.log) :
    voter_last_entry data = last_of live := by
  cases hlog with
  | empty hend htail => exact absurd hfinds (finds_of_empty hend htail)
  | @entries es x k hleads hk hcommit happly htail =>
    rw [last_of_append]
    by_cases hdist : log_offset_end_distance data.log data.log.commit = 0
    · obtain ⟨m, hentries, heq⟩ :=
        voter_last_entry_of_none (nc_det_addr_fits hfits.1 (Nat.zero_le _)) hdist
      have hleads' : Leads { data.log with mem := m } data.log.head (es ++ [x]) :=
        hleads.congr_log rfl rfl hentries
      have hend : data.log.end_ ≠ data.log.len := by
        rintro hend
        obtain hunknown | ⟨hne, -⟩ := htail
        · exact finds_of_empty hend hunknown hfinds
        · exact hne hend
      have hknown : TailKnown { data.log with mem := m } es x := by
        obtain hunknown | ⟨-, hplace⟩ := htail
        · exact .inr ⟨hunknown, ⟨k, hk, hcommit⟩, happly⟩
        · exact .inl hplace
      obtain ⟨hfound, hlast, -⟩ := hleads'.tail_last hknown hend hfinds
      rw [heq, if_neg (Nat.ne_of_lt hfound)]
      exact last_entry_at_tail hlast hend
    · obtain ⟨hrest, -⟩ := hleads.at_record hk hcommit
      obtain ⟨hreads, hne⟩ := hrest.reads hdist
      have hfits' := hfits.2 hdist
      have hlast : k ≤ es.length := by
        by_contra hbehind
        exact hne (List.drop_of_length_le (by rw [List.length_append, List.length_singleton]; omega))
      rw [← List.length_drop, List.drop_append_of_le_length hlast] at hfits'
      rw [List.drop_append_of_le_length hlast] at hreads
      exact voter_last_entry_of_published hreads hfits'

theorem voter_last_entry_of_not_finds (hidx : data.idx < MAX_SERVER_COUNT) (hfinds : ¬FindsEntry data.log) :
    voter_last_entry data = (0, 0) := by
  have hdist : log_offset_end_distance data.log data.log.commit = 0 := by
    by_contra hdist
    exact hfinds (.inr (.inl hdist))
  obtain ⟨m, -, heq⟩ := voter_last_entry_of_none (nc_det_addr_fits hidx (Nat.zero_le _)) hdist
  have hnone : log_get_tail { data.log with mem := m } = data.log.len := tail_of_not_finds hfinds
  rw [heq, if_pos hnone]

end voter

section claim

/-- A request of a candidate of a higher term without entries. -/
def blind_requests (i : Nat) : vote_req_t where
  sid := if i = 1 then mk_sid 2 false 1 else 0
  index := 0
  term := 0
  cid := ((init_server_data 0 3).get admits_three).cid

/-- A server of three that has this request. -/
def blind_voter (log : dare_log_t) : dare_server_data_t :=
  { (init_server_data 0 3).get admits_three with
    sid := mk_sid 1 false 0
    log := log
    vote_req := blind_requests }

theorem blind_voter_unset (i : Nat) : SID_GET_L (blind_requests i).sid = false := by
  unfold blind_requests
  dsimp only
  split
  · decide
  · decide

theorem choose_candidate_scan (data : dare_server_data_t) (best_sid : UInt64) :
    (choose_candidate data best_sid).1 =
      (List.range (get_group_size data.cid)).foldl find_best_request
        ⟨⟨SID_SET_L data.sid, (voter_last_entry data).1, (voter_last_entry data).2, data.cid⟩,
          SID_GET_TERM best_sid, data.vote_req⟩ := rfl

/-- If it finds no entry it votes for this candidate. -/
theorem blind_voter_votes {log : dare_log_t} (hfinds : ¬FindsEntry log) (value : Nat) :
    (poll_vote_requests (blind_voter log) value).events = [⟨0, .vote, mk_sid 2 false 1⟩] := by
  have hlast : voter_last_entry (blind_voter log) = (0, 0) :=
    voter_last_entry_of_not_finds (show 0 < MAX_SERVER_COUNT by decide) hfinds
  have hl : SID_GET_L (blind_voter log).sid = false := by
    change SID_GET_L (mk_sid 1 false 0) = false
    decide
  have hhb : ¬((blind_voter log).hb (SID_GET_IDX (blind_voter log).sid) ≠ 0 ∧
      SID_GET_TERM ((blind_voter log).hb (SID_GET_IDX (blind_voter log).sid)) =
        SID_GET_TERM (blind_voter log).sid) := fun h => h.1 rfl
  have hold : mk_sid 2 false 1 ≠ SID_SET_L (blind_voter log).sid := by
    change mk_sid 2 false 1 ≠ SID_SET_L (mk_sid 1 false 0)
    decide
  unfold poll_vote_requests
  rw [hl, if_neg Bool.false_ne_true]
  simp only
  rw [if_neg hhb]
  generalize hbest : (List.range (get_group_size (blind_voter log).cid)).foldl
    (find_best_sid (blind_voter log).idx) (SID_SET_L (blind_voter log).sid, (blind_voter log).vote_req) = best
  change (List.range (get_group_size ((init_server_data 0 3).get admits_three).cid)).foldl
    (find_best_sid 0) (SID_SET_L (mk_sid 1 false 0), blind_requests) = best at hbest
  have hsid : best.1 = mk_sid 2 false 1 := by
    rw [← hbest]
    decide
  have hchosen : (choose_candidate { blind_voter log with vote_req := best.2 } best.1).1.best.sid =
      mk_sid 2 false 1 := by
    have hscan := choose_candidate_scan { blind_voter log with vote_req := best.2 } best.1
    change _ = (List.range (get_group_size ((init_server_data 0 3).get admits_three).cid)).foldl
      find_best_request ⟨⟨SID_SET_L (mk_sid 1 false 0), (voter_last_entry (blind_voter log)).1,
        (voter_last_entry (blind_voter log)).2, ((init_server_data 0 3).get admits_three).cid⟩,
        SID_GET_TERM best.1, best.2⟩ at hscan
    rw [hscan, hlast, ← hbest]
    decide
  rw [if_neg (hsid.trans_ne hold), if_neg (hchosen.trans_ne hold), cast_vote_events, hchosen]
  rfl

/-- This vote is up to date only if the last entry has index and term zero. -/
theorem blind_voter_misled {log : dare_log_t} {last : UInt64 × UInt64} (hfinds : ¬FindsEntry log)
    (hvotes : UpToDateVote (blind_voter log) 0 last) : last = (0, 0) := by
  have hvote : ⟨0, .vote, mk_sid 2 false 1⟩ ∈ (poll_vote_requests (blind_voter log) 0).events := by
    rw [blind_voter_votes hfinds]
    exact List.mem_singleton_self _
  obtain ⟨-, i, -, hbehind⟩ := hvotes _ hvote
  obtain hlt | ⟨hterm, hindex⟩ := hbehind
  · exact absurd hlt UInt64.not_lt_zero
  · exact Prod.ext (UInt64.le_zero_iff.mp hindex) hterm

/-- The votes of a server are up to date, whatever requests it has, exactly if it finds the last entry of
    its log, or this has index and term zero. -/
theorem up_to_date_vote_iff {log : dare_log_t} {live : List dare_log_entry_t} {k : Nat}
    (hlog : LocalLog log live k) :
    (∀ data value, data.log = log → DeterminantsFit data (live.length - k) →
        (∀ i, SID_GET_L (data.vote_req i).sid = false) → UpToDateVote data value (last_of live)) ↔
      last_of live = (0, 0) ∨ FindsEntry log := by
  constructor
  · intro hvotes
    by_contra hnot
    obtain ⟨hlast, hfinds⟩ := not_or.mp hnot
    have hdist : log_offset_end_distance log log.commit = 0 := by
      by_contra hdist
      exact hfinds (.inr (.inl hdist))
    have hfits : DeterminantsFit (blind_voter log) (live.length - k) :=
      ⟨show 0 < MAX_SERVER_COUNT by decide, fun habsurd => absurd hdist habsurd⟩
    exact hlast (blind_voter_misled hfinds (hvotes _ 0 rfl hfits blind_voter_unset))
  · intro hcond data value hdata hfits hunset sid hvote
    subst hdata
    obtain ⟨hbetter, i, rfl, hatLeast⟩ := vote_for_best hvote
    refine ⟨term_lt_of_better hbetter (hunset i), i, rfl, ?_⟩
    by_cases hfinds : FindsEntry data.log
    · rwa [voter_last_entry_of_finds hlog hfits hfinds] at hatLeast
    · rwa [voter_last_entry_of_not_finds hfits.1 hfinds, ← hcond.resolve_right hfinds] at hatLeast

/-- The log of a server that has not committed any of its entries. -/
theorem localLog_uncommitted {log : dare_log_t} {es : List dare_log_entry_t} {x : dare_log_entry_t}
    (hleads : Leads log log.head (es ++ [x])) :
    LocalLog { log with commit := log.head, apply := log.head, tail := log.len } (es ++ [x]) 0 :=
  .entries (hleads.congr_log rfl rfl rfl) (Nat.zero_le _) (.inl rfl) ⟨0, Nat.zero_le _, .inl rfl⟩ (.inl rfl)

theorem voter_with_entries_up_to_date :
    ∃ log live, live.length = 2 ∧ LocalLog log live 0 ∧
      ∀ data value, data.log = log → DeterminantsFit data (live.length - 0) →
        (∀ i, SID_GET_L (data.vote_req i).sid = false) → UpToDateVote data value (last_of live) := by
  obtain ⟨log, es, hrun, hcount, hhead, -, hend, -⟩ :=
    fill_of_commands 0 (by decide) 0 (by decide) 1 (by decide)
  have hpath := path_of_short_run hrun (by omega)
  have hne : es ≠ [] := by
    rintro rfl
    simp at hcount
  rw [List.drop_zero, ← List.dropLast_append_getLast hne] at hpath
  rw [← List.dropLast_append_getLast hne] at hcount
  have hlocal := localLog_uncommitted (hpath.leads (indexed_of_short_run hrun).len)
  refine ⟨_, _, hcount, hlocal, (up_to_date_vote_iff hlocal).mpr (.inr (.inr (.inl ?_)))⟩
  have hdist := hpath.end_distance
  have hpos := length_le_span log.len log.head (es.dropLast ++ [es.getLast hne])
  change log_offset_end_distance log log.head ≠ 0
  rw [hcount] at hpos
  unfold SIZEOF_ENTRY at hpos
  omega

/-- A log is filled to the last byte of the buffer, so that it reads as empty. Its server votes for a
    candidate that has no entries at all. -/
theorem filled_log_loses_to_empty_log :
    ∃ log live, live.length = 1023 ∧ LocalLog log live 0 ∧ ∃ data value, data.log = log ∧
      DeterminantsFit data (live.length - 0) ∧ (∀ i, SID_GET_L (data.vote_req i).sid = false) ∧
      ¬UpToDateVote data value (last_of live) := by
  obtain ⟨log, es, hrun, hcount, hhead, hend⟩ := lap_of_long_commands
  have hlen := (indexed_of_short_run hrun).len
  have hsize : log.len = 67108864 := hlen.trans LOG_SIZE_eq
  have hpath := path_of_short_run hrun (by omega)
  have hdist := hpath.end_distance
  have hspan := dist_cases log.len log.head log.end_
  rw [end_distance_eq hpath.end_lt] at hdist
  obtain ⟨hfull, -⟩ | ⟨-, hzero, -⟩ | ⟨-, -, log', -, happ⟩ :=
    log_append_entry_cases log 1 0 0 (zero_cmd 17407 (by decide)) (by omega) (by omega)
  · omega
  · omega
  set x := new_entry log 1 0 0 (zero_cmd 17407 (by decide))
  have hx : entry_format.size x = 17455 := data_len_zero_cmd 17407 (by decide)
  have hcases := entry_format.write_cases log.len log.end_ x
  have hleads := hpath.leads_appended happ hlen (by omega) (by omega)
  rw [← happ.head] at hleads
  have hfilled : log'.end_ = log'.len := by
    rw [happ.end_, happ.len]
    omega
  refine ⟨_, _, ?_, localLog_uncommitted hleads, blind_voter _, 0, rfl, ?_, blind_voter_unset, fun hvotes => ?_⟩
  · rw [List.length_append, List.length_drop, List.length_singleton]
    omega
  · refine ⟨show 0 < MAX_SERVER_COUNT by decide, fun hdist => absurd ?_ hdist⟩
    change log_offset_end_distance log' log'.head = 0
    simp [log_offset_end_distance, hfilled]
  · have hfinds : ¬FindsEntry { log' with commit := log'.head, apply := log'.head, tail := log'.len } :=
      finds_of_empty hfilled rfl
    have hzero := blind_voter_misled hfinds hvotes
    rw [last_of_append] at hzero
    cases congrArg Prod.snd hzero

end claim

end dare.election
