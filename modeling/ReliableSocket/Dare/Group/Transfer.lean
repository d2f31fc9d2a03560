import ReliableSocket.Dare.Group

open memory ring
open dare.log dare.server dare.rc

/-! # What the requests of the leader do to a follower -/

namespace dare.group

section write

variable {log remote : dare_log_t} {live xs : List dare_log_entry_t} {a b c count n e : Nat}

/-- What the server has of the leader's entries, from its first entry on. -/
theorem holds_from (hpath : xs = [] ∨ Path remote (entry_format.advance log.len log.head (live.take a)) xs)
    (hshared : xs.take (n - a) = (live.take n).drop a) (hlen : remote.len = log.len) (hac : a ≤ count)
    (hcn : count ≤ n) (hce : count ≤ e) (hends : Ends log live count c)
    (hheld : entry_format.Holds log.len remote.entries c ((live.take e).drop count)) :
    entry_format.Holds log.len remote.entries (entry_format.advance log.len log.head (live.take a))
      ((live.take e).drop a) := by
  have hsplit := drop_eq_append hac (live.take e)
  rw [List.take_take, Nat.min_eq_left hce] at hsplit
  rw [← hsplit, RecordFormat.holds_append, ← hends.between hac]
  refine ⟨?_, hheld⟩
  rw [← take_of_shared hshared hcn]
  obtain rfl | hpath := hpath
  · rw [List.take_nil]
    trivial
  · have hholds := hpath.holds
    rw [hlen, ← List.take_append_drop (count - a) xs, RecordFormat.holds_append] at hholds
    exact hholds.1

/-- With its new end the log of the server has these entries and no others. -/
theorem path_to_end (hpath : Path log log.head live) (hlen : remote.len = log.len) (hae : a ≤ e)
    (hends : Ends log live e remote.end_)
    (hheld : entry_format.Holds log.len remote.entries (entry_format.advance log.len log.head (live.take a))
      ((live.take e).drop a)) :
    (live.take e).drop a = [] ∨
      Path remote (entry_format.advance log.len log.head (live.take a)) ((live.take e).drop a) := by
  have hrest := path_drop hpath a
  have hbetween := hends.between hae
  cases hentries : (live.take e).drop a with
  | nil => exact .inl rfl
  | cons x es =>
    rw [hentries] at hheld hbetween
    refine .inr ⟨?_, ?_, ?_, ?_, ?_⟩
    · have hlt : entry_format.advance log.len (entry_format.next log.len _ x) es < log.len :=
        RecordFormat.advance_lt hheld.2.2.2 hheld.2.2.1
      rw [hlen, hbetween]
      exact hlt
    · rw [hlen]
      exact hrest.start_le
    · rw [hlen]
      exact hheld
    · rw [hlen, hbetween]
    · rw [hlen, ← hentries, List.drop_take]
      exact Nat.lt_of_le_of_lt (span_take_le _ _ _ _) hrest.span_lt

end write

section complete

variable {a c count : Nat → Nat} {ys : Nat → List dare_log_entry_t} {blank commit j : Nat}
  {calls : Nat → List apply_call} {live rest xs : List dare_log_entry_t} {g : Group} {m k t n : Nat} {s : State}
  {remote : dare_log_t}

/-- The oldest request for the server has left its log with another commit offset, other bytes, or neither. -/
theorem Follower.kept (hf : Follower j (a j) (c j) (count j) commit (ys j) live (calls j) g xs m k t n)
    (hlen : s.leader.log.len = g.rc.leader.log.len) (hhead : s.leader.log.head = g.rc.leader.log.head)
    (hremote : s.remote j = remote) (hqueue : ∀ wr ∈ s.posted j, wr ∈ g.rc.posted j)
    (happly : remote.apply = (g.rc.remote j).apply)
    (hpath : xs = [] ∨
      Path remote (entry_format.advance g.rc.leader.log.len g.rc.leader.log.head (live.take (a j))) xs)
    (hcommit : ∃ k, count j ≤ k ∧ k ≤ t ∧ Ends g.rc.leader.log live k remote.commit)
    (hmarked : Marked (c j) (count j) commit t n g.rc.leader.log live (xs.length = n - a j) (pending s j ≠ [])
      (s.leader.servers j) (s.leader.log_offsets j)) :
    Followed a c count ys calls (live ++ rest) commit { g with rc := s } j := by
  obtain ⟨-, -, -, -, -, htn, hn⟩ := hf.order
  obtain ⟨k', hck, hkt, hends⟩ := hcommit
  subst hremote
  exact ⟨xs, m, k', t, n, hf.next hlen hhead rfl happly hpath hf.shared hf.whole hends
    ⟨hck, hkt, Nat.le_refl _, htn, hn⟩ hf.bound (fun wr hwr _ _ => .inl (hqueue wr hwr))
    (hmarked.mono (Nat.le_refl _) (fun _ _ h => h.mono hlen hhead rest) id rfl rfl rfl)⟩

/-- The oldest request for the server has written the end of its log. -/
theorem Follower.wrote_end {e o : Nat}
    (hf : Follower j (a j) (c j) (count j) commit (ys j) live (calls j) g xs m k t n)
    (hpath : Path g.rc.leader.log g.rc.leader.log.head live) (hacks : Ends g.rc.leader.log live (count j) (c j))
    (hends : Ends g.rc.leader.log live e o) (hce : count j ≤ e) (hte : t ≤ e)
    (hheld : entry_format.Holds g.rc.leader.log.len (g.rc.remote j).entries (c j) ((live.take e).drop (count j)))
    (hlen : s.leader.log.len = g.rc.leader.log.len) (hhead : s.leader.log.head = g.rc.leader.log.head)
    (hlen' : (g.rc.remote j).len = g.rc.leader.log.len) (hremote : s.remote j = { g.rc.remote j with end_ := o })
    (hqueue : ∀ wr ∈ s.posted j, wr ∈ g.rc.posted j)
    (hmarked : Marked (c j) (count j) commit t e g.rc.leader.log live True (pending s j ≠ [])
      (s.leader.servers j) (s.leader.log_offsets j)) :
    Followed a c count ys calls (live ++ rest) commit { g with rc := s } j := by
  obtain ⟨-, -, hac, hck, hkt, htn, -⟩ := hf.order
  have hlength : ((live.take e).drop (a j)).length = e - a j := by
    rw [List.length_drop, List.length_take, Nat.min_eq_left hends.1]
  have hfrom := holds_from hf.path hf.shared hlen' hac (by omega) hce hacks hheld
  refine ⟨(live.take e).drop (a j), m, k, t, e, hf.next hlen hhead rfl (by rw [hremote]) ?_ ?_ (fun _ => hlength)
    (by rw [hremote]; exact hf.committed) ⟨hck, hkt, Nat.le_refl _, hte, hends.1⟩ hf.bound
    (fun wr hwr _ _ => .inl (hqueue wr hwr)) ?_⟩
  · rw [hremote]
    exact path_to_end hpath hlen' (by omega) hends hfrom
  · rw [List.take_of_length_le hlength.le]
  · rw [show (((live.take e).drop (a j)).length = e - a j) = True by simp [hlength]]
    exact hmarked.mono (Nat.le_refl _) (fun _ _ h => h.mono hlen hhead rest) id rfl rfl rfl

/-- The oldest request for the server has written some of the leader's bytes into its log. -/
theorem Follower.wrote_entries {o len size : Nat}
    (hf : Follower j (a j) (c j) (count j) commit (ys j) live (calls j) g xs m k t n)
    (hpath : Path g.rc.leader.log g.rc.leader.log.head live) (hlen : (g.rc.remote j).len = g.rc.leader.log.len)
    (hall : xs.length = n - a j)
    (hremote : remote = (execute j (.write_entries o len) size g.rc.leader.log (g.rc.remote j)).2) :
    xs = [] ∨ Path remote (entry_format.advance g.rc.leader.log.len g.rc.leader.log.head (live.take (a j))) xs := by
  refine hf.path.imp_right fun hxs => ?_
  have hleader := (path_drop hpath (a j)).holds
  have hentries : xs = (live.drop (a j)).take (n - a j) := by
    rw [← List.drop_take, ← hf.shared, List.take_of_length_le hall.le]
  rw [← List.take_append_drop (n - a j) (live.drop (a j)), RecordFormat.holds_append, ← hentries] at hleader
  have hholds := hxs.holds
  subst hremote
  refine ⟨hxs.end_lt, hxs.start_le, ?_, hxs.reaches, hxs.span_lt⟩
  rw [hlen] at hholds
  rw [entries_execute_write, execute_remote_len, hlen]
  exact RecordFormat.holds_mixed (mixed_copy _ _ _ _) hleader.1 hholds

/-- The end that log adjustment has found, and that the server has all entries of the leader before it. -/
theorem found_end {log : dare_log_t} {c count n o : Nat} (hacks : Ends log live count c)
    (hn : n ≤ (live.drop count).length) (hboundary : Boundary log.len c (live.drop count) n o) (hzero : o = 0 → c = 0)
    (hheld : entry_format.Holds log.len remote.entries c ((live.drop count).take n)) :
    ∃ e, count ≤ e ∧ Ends log live e o ∧ entry_format.Holds log.len remote.entries c ((live.take e).drop count) := by
  have hfound (ho : o = entry_format.advance log.len c ((live.drop count).take n)) :
      ∃ e, count ≤ e ∧ Ends log live e o ∧
        entry_format.Holds log.len remote.entries c ((live.take e).drop count) := by
    refine ⟨count + n, Nat.le_add_right _ _, ho ▸ hacks.advance hn, ?_⟩
    rwa [List.drop_take, Nat.add_sub_cancel_left]
  obtain ho | ho := hboundary
  · exact hfound ho
  · unfold met_offset at ho
    split at ho
    · exact hfound ho
    · refine ⟨count, Nat.le_refl _, ?_, ?_⟩
      · rw [ho, ← hzero ho]
        exact hacks
      · rw [List.drop_take, Nat.sub_self, List.take_zero]
        trivial

theorem Follower.complete (hf : Follower j (a j) (c j) (count j) commit (ys j) live (calls j) g xs m k t n)
    (hcounted : Counted c count ys blank live g.rc) (hj : Peer g.rc j)
    (hacks : Ends g.rc.leader.log live (count j) (c j)) {success : Bool} {bytes : Nat}
    (hs : rc.complete g.rc j success bytes = s) (hlen : s.leader.log.len = g.rc.leader.log.len)
    (hhead : s.leader.log.head = g.rc.leader.log.head) :
    Followed a c count ys calls (live ++ rest) commit { g with rc := s } j := by
  have htracks := hcounted.tracks j hj
  obtain ⟨-, -, hac, hck, hkt, htn, -⟩ := hf.order
  obtain heq | ⟨wr, queue, hdequeues⟩ := htracks.dequeues hcounted.safe success bytes
  · rw [← hs, heq]
    exact hf.kept rfl rfl rfl (fun _ h => h) rfl hf.path ⟨k, hck, hkt, hf.committed⟩ hf.marked
  rw [hs] at hdequeues
  obtain ⟨logs, hlogs, -, hremote⟩ := hdequeues.logs
  have hposted := hdequeues.posted
  have hoffsets := hdequeues.log_offsets
  obtain ⟨size, hsize⟩ : ∃ size, size = if success then wr.operation.len else bytes := ⟨_, rfl⟩
  rw [← hsize] at hlogs
  have hsub : ∀ wr' ∈ s.posted j, wr' ∈ g.rc.posted j := by
    rw [hdequeues.queue, hposted]
    exact fun _ => List.mem_cons_of_mem _
  have hmem : wr ∈ g.rc.posted j := by rw [hposted]; exact List.mem_cons_self ..
  have hsame : ∃ k, count j ≤ k ∧ k ≤ t ∧ Ends g.rc.leader.log live k (g.rc.remote j).commit :=
    ⟨k, hck, hkt, hf.committed⟩
  obtain ⟨⟨o, hop⟩, hserver, hpending⟩ | ⟨hpending, hserver⟩ := hdequeues.server
  · rw [hop] at hlogs
    refine hf.kept hlen hhead hremote hsub (by rw [hlogs]; rfl) ?_ ?_
      (by rw [hserver, hoffsets, hpending]; exact hf.marked)
    · rw [hlogs]
      exact hf.path.imp_right fun hpath => hpath.congr_log rfl rfl rfl
    · rw [hlogs]
      simp only [execute]
      split
      · exact hsame
      · exact hf.queued wr hmem o hop
  · have hphase := htracks.phase
    rw [hpending, List.map_cons] at hphase
    have hmarked := hf.marked
    rw [show (pending g.rc j ≠ []) = True by simp [hpending]] at hmarked
    have hlast : pending s j ≠ [] → (g.rc.leader.servers j).next_lr_step = .LR_UPDATE_LOG := fun hne =>
      (hphase.last.resolve_left fun hnil => hne (List.map_eq_nil_iff.mp hnil)).1
    have hidle (hat : (g.rc.leader.servers j).next_lr_step ≠ .LR_UPDATE_LOG) : ¬ pending s j ≠ [] := fun hne =>
      hat (hlast hne)
    have hnext (hset : (g.rc.leader.servers j).next_lr_step ≠ .LR_SET_END)
        (hend : (g.rc.leader.servers j).next_lr_step ≠ .LR_UPDATE_END) :
        Marked (c j) (count j) commit t n g.rc.leader.log live (xs.length = n - a j) (pending s j ≠ [])
          (s.leader.servers j) (s.leader.log_offsets j) := by
      rw [hserver, hoffsets]
      cases success with
      | false => exact hmarked.failure
      | true => exact hmarked.success hset hend hlast
    -- a request that writes the end of the log, if it gets so far
    have hwrite {o e : Nat} (hop : wr.operation = .write_end o) (hends : Ends g.rc.leader.log live e o)
        (hce : count j ≤ e) (hte : t ≤ e)
        (hheld : entry_format.Holds g.rc.leader.log.len (g.rc.remote j).entries (c j) ((live.take e).drop (count j)))
        (hafter : Marked (c j) (count j) commit t e g.rc.leader.log live True (pending s j ≠ [])
          (s.leader.servers j) (s.leader.log_offsets j)) :
        Followed a c count ys calls (live ++ rest) commit { g with rc := s } j := by
      rw [hop] at hlogs hsize
      by_cases hshort : size < 8
      · have hfailed : success = false := by
          cases success with
          | false => rfl
          | true => simp [hsize, log_operation.len] at hshort
        have hnone : logs.2 = g.rc.remote j := by
          rw [hlogs]
          simp [execute, hshort]
        refine hf.kept hlen hhead (hremote.trans hnone) hsub rfl hf.path hsame ?_
        rw [hserver, hoffsets, hfailed]
        exact hmarked.failure
      · have hdone : logs.2 = { g.rc.remote j with end_ := o } := by
          rw [hlogs]
          simp [execute, hshort]
        exact hf.wrote_end hcounted.path hacks hends hce hte hheld hlen hhead htracks.len (hremote.trans hdone) hsub
          hafter
    cases hphase with
    | get_write _ _ hops => cases hops
    | get_nce_len hat _ _ hops =>
      obtain hops | hops := hops
      · cases hops
      · have hnone : logs.2 = g.rc.remote j := by rw [hlogs, (List.cons.inj hops).1]; rfl
        exact hf.kept hlen hhead (hremote.trans hnone) hsub rfl hf.path hsame (hnext (by simp [hat]) (by simp [hat]))
    | get_nce hat _ _ _ hops =>
      obtain hops | ⟨-, hops⟩ := hops
      · cases hops
      · have hnone : logs.2 = g.rc.remote j := by rw [hlogs, (List.cons.inj hops).1]; rfl
        exact hf.kept hlen hhead (hremote.trans hnone) hsub rfl hf.path hsame (hnext (by simp [hat]) (by simp [hat]))
    | set_end hat hheld _ _ hops =>
      obtain hops | ⟨hops, n', hn', hshared, hboundary⟩ := hops
      · cases hops
      have ht := hmarked.told (by simp [hat]) (by simp [hat])
      have hcommit := hmarked.count_le (by simp [hat]) (by simp [hat])
      obtain ⟨e, hce, hends, hheld'⟩ := found_end hacks hn' hboundary (hmarked.of_set_end hat trivial)
        (holds_take_of_same hheld hshared)
      refine hwrite (List.cons.inj hops).1 hends hce (by omega) hheld' ?_
      rw [hserver, hoffsets]
      cases success with
      | false =>
        exact .set_end ((lr_failure_step _).trans hat) ht hcommit fun hbusy => absurd hbusy (hidle (by simp [hat]))
      | true =>
        exact .update_log (by simp [lr_success, hat]) trivial hcommit hce (Nat.le_refl _) hends fun hbusy =>
          absurd hbusy (hidle (by simp [hat]))
    | update_log k' n' hat _ _ _ _ hwrites _ _ =>
      obtain ⟨o, len, hop⟩ := hwrites _ (List.mem_cons_self ..)
      obtain ⟨hall, -⟩ := hmarked.of_update_log hat
      exact hf.kept hlen hhead hremote hsub (by rw [hlogs, hop]; rfl)
        (hf.wrote_entries hcounted.path htracks.len hall (by rw [hlogs, hop])) (by rw [hlogs, hop]; exact hsame)
        (hnext (by simp [hat]) (by simp [hat]))
    | update_end n' hat hn' hheld hcached hops =>
      obtain hops | ⟨hops, hend⟩ := hops
      · cases hops
      obtain ⟨-, e, hle, hends⟩ := hmarked.of_update_end hat
      have hcommit := hmarked.count_le (by simp [hat]) (by simp [hat])
      have hheld' : entry_format.Holds g.rc.leader.log.len (g.rc.remote j).entries (c j)
          ((live.take e).drop (count j)) := by
        obtain rfl : count j + n' = e := (hacks.advance hn').at.unique hcounted.path (hcached ▸ hends.at)
        rwa [List.drop_take, Nat.add_sub_cancel_left]
      refine hwrite (List.cons.inj hops).1 hends (by omega) (by omega) hheld' ?_
      rw [hserver, hoffsets]
      cases success with
      | false =>
        rw [← (lr_failure_kept _).1] at hends
        exact .update_end ((lr_failure_step _).trans hat) trivial hcommit (Nat.le_refl e) hends
      | true =>
        exact .update_log (by simp [lr_success, hat]) trivial hcommit (by omega) (Nat.le_refl e) (hend ▸ hends)
          fun hbusy => absurd hbusy (hidle (by simp [hat]))

end complete

end dare.group
