import ReliableSocket.Dare.Log.Capacity
import ReliableSocket.Dare.Server.Resume

open memory ring

namespace dare.log

/-- The bytes of the log and its end are those of the leader; the other offsets are its own. -/
structure CopyOf (log leader : dare_log_t) : Prop where
  end_ : log.end_ = leader.end_
  len : log.len = leader.len
  entries : ∀ b, b < leader.len → log.entries b = leader.entries b

/-- The entries `due` between two offsets of a log that holds `live` from its head on. Both offsets
    are at the head or behind an entry, or they are 0 from the start. -/
inductive EntriesBetween (log : dare_log_t) (live : List dare_log_entry_t) :
    Nat → Nat → List dare_log_entry_t → Prop
  | ends {before due after : List dare_log_entry_t} (hlive : live = before ++ (due ++ after)) :
      EntriesBetween log live (entry_format.advance log.len log.head before)
        (entry_format.advance log.len log.head (before ++ due)) due
  | initial : EntriesBetween log live 0 0 []

section between

variable {log leader : dare_log_t} {live before due after : List dare_log_entry_t} {offset : Nat}

theorem Path.copy (hpath : Path leader offset live) (hcopy : CopyOf log leader) :
    Path log offset live := by
  refine ⟨?_, ?_, ?_, ?_, ?_⟩
  · rw [hcopy.end_, hcopy.len]
    exact hpath.end_lt
  · rw [hcopy.len]
    exact hpath.start_le
  · rw [hcopy.len]
    exact RecordFormat.holds_congr hpath.start_le hpath.span_lt
      (fun b hb _ => (hcopy.entries b hb).symm) hpath.holds
  · rw [hcopy.end_, hcopy.len]
    exact hpath.reaches
  · rw [hcopy.len]
    exact hpath.span_lt

/-- Behind the entries `before` a reader meets the rest of the log. At the head of a full log, which is
    also its end, it meets nothing. -/
theorem written_behind (hwritten : Written log (before ++ (due ++ after)))
    (hfull : log.end_ = log.head → before ≠ []) :
    due = [] ∨ Path log (entry_format.advance log.len log.head before) (due ++ after) := by
  generalize hlive : before ++ (due ++ after) = live at hwritten
  cases hwritten with
  | readable hread =>
    subst hlive
    obtain ⟨hnil, -⟩ | hpath := hread.path
    · simp only [List.append_eq_nil_iff] at hnil
      exact .inl hnil.2.1
    · exact .inr hpath.behind
  | @full x rest hlen hend hrest =>
    cases before with
    | nil => exact absurd rfl (hfull hend)
    | cons y before =>
      obtain ⟨rfl, rfl⟩ := List.cons.inj hlive
      exact .inr hrest.behind

theorem EntriesBetween.sublist {apply commit : Nat} (hbetween : EntriesBetween log live apply commit due) :
    due.Sublist live := by
  cases hbetween with
  | initial => exact List.nil_sublist live
  | @ends before _ after hlive =>
    rw [hlive]
    exact (List.sublist_append_left due after).trans (List.sublist_append_right before _)

end between

end dare.log

open dare.log

namespace dare.server

/-- The loop ends at once where the apply offset is at the end of the log. -/
theorem stops_at_end {s : apply_t} (hend : s.log.apply = s.log.end_) :
    apply_committed_entries s = some s := by
  refine apply_loop_stops ?_ _
  simp [log_is_offset_larger, hend, log_offset_end_distance]

/-- A follower has `due` before it when its log is a copy of a log that holds these entries between
    the apply offset and the commit offset of the follower, unless that log is full and the follower
    is at its head. -/
theorem backlog_of_copy {s : apply_t} {leader : dare_log_t} {live due : List dare_log_entry_t}
    (hwritten : Written leader live) (hcopy : CopyOf s.log leader)
    (hfollower : IS_LEADER s.data = false) (hrunning : s.running = true)
    (hbetween : EntriesBetween leader live s.log.apply s.log.commit due)
    (hfull : leader.end_ = leader.head → s.log.apply ≠ leader.head) :
    (due = [] ∧ s.log.commit = s.log.apply) ∨ ∃ after, Backlog s due after := by
  generalize happly : s.log.apply = apply at hbetween hfull
  generalize hcommit : s.log.commit = commit at hbetween
  cases hbetween with
  | initial => exact .inl ⟨rfl, rfl⟩
  | @ends before _ after hlive =>
    subst hlive
    have hbehind : leader.end_ = leader.head → before ≠ [] := by
      rintro hend rfl
      exact hfull hend rfl
    obtain rfl | hpath := written_behind hwritten hbehind
    · exact .inl ⟨rfl, by rw [List.append_nil]⟩
    · refine .inr ⟨after, hrunning, ?_, ?_, fun x _ hrole => ?_⟩
      · rw [happly]
        exact hpath.copy hcopy
      · rw [hcommit, happly, hcopy.len, RecordFormat.advance_append]
      · rw [hfollower] at hrole
        cases hrole

/-- `apply_committed_entries` ends with the apply offset at the commit offset. Each client entry among
    `due` is stored and passed on exactly once, in the order of the indexes, and no other entry is. -/
def AppliesOnce (s : apply_t) (due : List dare_log_entry_t) : Prop :=
  ∃ s', apply_committed_entries s = some s' ∧ s'.log.apply = s.log.commit ∧
    s'.log.commit = s.log.commit ∧ s'.calls = s.calls ++ due.flatMap (entry_calls false) ∧
    due.Pairwise fun x y => x.idx < y.idx

/-- No calls are made for entries exactly if there is no client entry among them. -/
theorem flatMap_calls_eq_nil_iff (leader : Bool) {due : List dare_log_entry_t} :
    due.flatMap (entry_calls leader) = [] ↔ ∀ x ∈ due, is_client x.type = false := by
  rw [List.flatMap_eq_nil_iff]
  refine forall₂_congr fun x _ => ⟨fun hnil => ?_, entry_calls_other leader⟩
  by_contra hclient
  obtain ⟨call, hcalls, -⟩ := entry_calls_client leader (Bool.not_eq_false _ ▸ hclient)
  rw [hnil] at hcalls
  cases hcalls

/-- A follower whose log is a copy of a leader's log applies the entries between its apply offset and
    its commit offset exactly once, in order, if and only if it does not stand at the head of a full
    log with something to do: the head is also the end of such a log, and the loop ends at once. -/
theorem committed_entries_applied_once {s : apply_t} {leader : dare_log_t}
    {es due : List dare_log_entry_t} {passed : Nat} (hrun : Run BoundedAppend leader es passed)
    (hcopy : CopyOf s.log leader) (hfollower : IS_LEADER s.data = false) (hrunning : s.running = true)
    (hbetween : EntriesBetween leader (es.drop passed) s.log.apply s.log.commit due) :
    AppliesOnce s due ↔ (leader.end_ = leader.head → s.log.apply = leader.head →
      s.log.commit = leader.head ∧ ∀ x ∈ due, is_client x.type = false) := by
  have hindexes := (indexed_of_run (hrun.mono fun _ _ _ _ _ hok => hok.1)).2.indexes
  have hsorted : es.Pairwise fun x y => x.idx < y.idx := by
    refine List.pairwise_iff_getElem.mpr fun i j hi hj hlt => ?_
    rw [UInt64.lt_iff_toNat_lt, hindexes i hi, hindexes j hj]
    omega
  have hdue : due.Pairwise fun x y => x.idx < y.idx :=
    (hsorted.sublist (List.drop_sublist passed es)).sublist hbetween.sublist
  by_cases hstall : leader.end_ = leader.head ∧ s.log.apply = leader.head
  · -- the loop ends with the state unchanged
    obtain ⟨hend, happly⟩ := hstall
    have hstops := stops_at_end (happly.trans (hend.symm.trans hcopy.end_.symm))
    simp only [AppliesOnce, hstops, Option.some.injEq, exists_eq_left', hend, happly, true_implies,
      true_and, List.self_eq_append_right, flatMap_calls_eq_nil_iff]
    exact ⟨fun h => ⟨h.1.symm, h.2.1⟩, fun h => ⟨h.1.symm, h.2, hdue⟩⟩
  · refine iff_of_true ?_ fun hend happly => absurd ⟨hend, happly⟩ hstall
    obtain ⟨rfl, hequal⟩ | ⟨after, hlog⟩ := backlog_of_copy (written_of_run hrun).2 hcopy hfollower
      hrunning hbetween fun hend happly => hstall ⟨hend, happly⟩
    · refine ⟨s, ?_, hequal.symm, rfl, by simp, hdue⟩
      refine apply_loop_stops ?_ _
      simp [log_is_offset_larger, hequal]
    · refine ⟨_, hlog.apply_committed_entries_some, ?_, ?_, ?_, hdue⟩
      · rw [after_entries_log, hlog.commit]
      · rw [after_entries_log]
      · rw [after_entries_calls, hfollower]

/-- Server 1 with the log of the leader and its own offsets. -/
def follower_of (leader : dare_log_t) (apply commit : Nat) : apply_t :=
  member 1 { leader with apply := apply, commit := commit } ⟨0, 0, 0⟩

theorem follower_of_copy (leader : dare_log_t) (apply commit : Nat) :
    CopyOf (follower_of leader apply commit).log leader :=
  ⟨rfl, rfl, fun _ _ => rfl⟩

theorem follower_of_role (leader : dare_log_t) (apply commit : Nat) :
    IS_LEADER (follower_of leader apply commit).data = false := by
  have hl : SID_GET_L SID_NULL = false := by decide
  simp [IS_LEADER, follower_of, member, init_server_data, hl]

theorem follower_applies_across_wrap :
    ∃ leader es, Run BoundedAppend leader es 1 ∧ es.length = 1024 ∧ leader.head = 65583 ∧
      leader.end_ = 20048 ∧ AppliesOnce (follower_of leader 65583 20048) (es.drop 1) := by
  obtain ⟨leader, es, hrun, hcount, hhead, hend⟩ := wrap_of_long_commands
  have hbounded : Run BoundedAppend leader es 1 :=
    hrun.mono fun _ _ _ _ _ hok => ⟨⟨hok.1.1, hok.2⟩, Nat.le_of_lt hok.1.2⟩
  have hbetween := @EntriesBetween.ends leader (es.drop 1) [] (es.drop 1) [] (by simp)
  rw [List.nil_append, (path_of_short_run hrun (by omega)).reaches, hend, RecordFormat.advance, hhead]
    at hbetween
  refine ⟨leader, es, hbounded, hcount, hhead, hend, ?_⟩
  refine (committed_entries_applied_once hbounded (follower_of_copy leader 65583 20048)
    (follower_of_role leader 65583 20048) rfl hbetween).mpr fun hfull => ?_
  omega

/-- The last command of the leader fills the log up to the head, where a follower has yet to apply
    1022 committed commands. It takes the head for the end of the log and applies none of them. -/
theorem full_log_stalls_follower :
    ∃ leader es last, Run BoundedAppend leader (es ++ [last]) 1 ∧ es.length = 1023 ∧
      leader.head = 65583 ∧ leader.end_ = 65583 ∧
      CopyOf (follower_of leader 65583 67091409).log leader ∧
      EntriesBetween leader ((es ++ [last]).drop 1) 65583 67091409 (es.drop 1) ∧
      apply_committed_entries (follower_of leader 65583 67091409) =
        some (follower_of leader 65583 67091409) ∧
      ¬AppliesOnce (follower_of leader 65583 67091409) (es.drop 1) := by
  obtain ⟨leader, es, last, hrun, hcount, hhead, hend, hcommit⟩ := full_of_long_commands
  have hcopy := follower_of_copy leader 65583 67091409
  have hbetween := @EntriesBetween.ends leader ((es ++ [last]).drop 1) [] (es.drop 1) [last]
    (List.drop_append_of_le_length (by omega))
  rw [List.nil_append, hcommit, RecordFormat.advance, hhead] at hbetween
  have hstops : apply_committed_entries (follower_of leader 65583 67091409) =
      some (follower_of leader 65583 67091409) := stops_at_end hend.symm
  refine ⟨leader, es, last, hrun, hcount, hhead, hend, hcopy, hbetween, hstops, ?_⟩
  rintro ⟨s', hs', happly, -⟩
  rw [hstops] at hs'
  obtain rfl := Option.some.inj hs'
  exact absurd (show (65583 : Nat) = 67091409 from happly) (by decide)

end dare.server
