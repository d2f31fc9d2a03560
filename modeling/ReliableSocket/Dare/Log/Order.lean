import Mathlib.Logic.Relation
import ReliableSocket.Rank
import ReliableSocket.Dare.Log.Leads

open memory ring

namespace dare.log

/-- The offsets that a reader meets on its way from the head to the end, in this order. Where the reader goes on
    at the beginning of the buffer, both offsets are met. -/
def walk_offsets (log : dare_log_t) : List Nat := (log_positions log).map Prod.fst

/-- A reader meets `l` strictly after `r`. -/
def MetAfter (log : dare_log_t) (l r : Nat) : Prop := (walk_offsets log).idxOf r < (walk_offsets log).idxOf l

/-- An append with enough room, a head advance to a boundary, or other values of the other offsets. -/
inductive LogStep (log : dare_log_t) : dare_log_t → Prop where
  | append {log' : dare_log_t} {idx : UInt64} (term req_id : UInt64) (clt_id : UInt16) (data : log_data)
      (hok : RoomyAppend log term req_id clt_id data)
      (happend : log_append_entry log term req_id clt_id data = (log', idx)) : LogStep log log'
  | advance_head {offset count : Nat} (hboundary : (offset, count) ∈ log_positions log) :
      LogStep log { log with head := offset }
  | move (apply commit tail : Nat) : LogStep log { log with apply, commit, tail }

/-- The log goes on, and both offsets stay between its head and its end all the time. -/
def StayLive (l r : Nat) : dare_log_t → dare_log_t → Prop :=
  Relation.ReflTransGen fun log log' => LogStep log log' ∧ l ∈ walk_offsets log' ∧ r ∈ walk_offsets log'

/-- The comparison of offsets is the order in which a reader meets them. -/
structure ComparesAsMet (log : dare_log_t) : Prop where
  starts : (walk_offsets log).head? = some log.head
  ends : (walk_offsets log).getLast? = some log.end_
  larger_iff : ∀ l ∈ walk_offsets log, ∀ r ∈ walk_offsets log,
    log_is_offset_larger log l r = true ↔ MetAfter log l r
  total : IsStrictTotalOrder { o // o ∈ walk_offsets log } fun l r => log_is_offset_larger log l r = true
  stays : ∀ l ∈ walk_offsets log, ∀ r ∈ walk_offsets log, ∀ log', StayLive l r log log' →
    log_is_offset_larger log' l r = log_is_offset_larger log l r

section walk

variable {log : dare_log_t} {offset : Nat} {x : dare_log_entry_t} {es : List dare_log_entry_t}

theorem mem_walk_offsets {l : Nat} : l ∈ walk_offsets log ↔ ∃ count, (l, count) ∈ log_positions log := by
  simp [walk_offsets]

/-- An entry brings a reader closer to the end. -/
theorem Path.next_closer (hpath : Path log offset (x :: es)) :
    log_offset_end_distance log (entry_format.next log.len offset x) < log_offset_end_distance log offset := by
  have hcost := entry_format.cost_pos log.len offset x
  rw [hpath.end_distance, hpath.tail.end_distance, RecordFormat.span]
  omega

/-- So does going on at the beginning of the buffer. -/
theorem Path.place_closer (hpath : Path log offset (x :: es)) (hlt : offset < log.len) :
    offset = entry_format.place log.len offset x ∨
      log_offset_end_distance log (entry_format.place log.len offset x) < log_offset_end_distance log offset := by
  have hnext := hpath.holds.2.2.1
  obtain ⟨-, hsame, -⟩ := RecordFormat.place_place hnext
  have hfirst := entry_format.write_cases log.len offset x
  have hagain := entry_format.write_cases log.len (entry_format.place log.len offset x) x
  rw [hpath.end_distance, hpath.at_place.end_distance, RecordFormat.span, RecordFormat.span, hsame]
  omega

theorem Path.positions_closer (hpath : Path log offset es) {fuel passed position count : Nat}
    (hmem : (position, count) ∈ positions log fuel offset passed) :
    log_offset_end_distance log position ≤ log_offset_end_distance log offset := by
  obtain ⟨k, -, hk, hat⟩ := hpath.of_mem_positions hmem
  rw [hpath.end_distance, (hpath.at_record hk hat).end_distance]
  exact (RecordFormat.holds_at hpath.holds hk hat).2.2

/-- Every offset that is met is closer to the end than those before it, unless it is met again at once. -/
theorem Path.positions_falls (hpath : Path log offset es) (hlt : offset < log.len) {fuel : Nat}
    (hfuel : 2 * es.length + 1 ≤ fuel) (passed : Nat) :
    (positions log fuel offset passed).Pairwise fun p q =>
      p.1 = q.1 ∨ log_offset_end_distance log q.1 < log_offset_end_distance log p.1 := by
  induction es generalizing offset fuel passed with
  | nil =>
    obtain ⟨fuel, rfl⟩ : ∃ k, fuel = k + 1 := ⟨fuel - 1, by omega⟩
    rw [positions, hpath.get_entry_nil]
    exact List.pairwise_singleton _ _
  | cons x es ih =>
    rw [List.length_cons] at hfuel
    obtain ⟨fuel, rfl⟩ : ∃ k, fuel = k + 2 := ⟨fuel - 2, by omega⟩
    have hplace := hpath.place_closer hlt
    have hcloser := hpath.next_closer
    have hagain := hpath.at_place.next_closer
    rw [(RecordFormat.place_place hpath.holds.2.2.1).2.1] at hagain
    have hbehind : ∀ {k : Nat} {q : Nat × Nat},
        q ∈ positions log k (entry_format.next log.len offset x) (passed + 1) →
        log_offset_end_distance log q.1 < log_offset_end_distance log offset ∧
          log_offset_end_distance log q.1 <
            log_offset_end_distance log (entry_format.place log.len offset x) := by
      intro k q hq
      have hle := hpath.tail.positions_closer hq
      exact ⟨Nat.lt_of_le_of_lt hle hcloser, Nat.lt_of_le_of_lt hle hagain⟩
    obtain hmet | hmet := hpath.positions_entry fuel passed
    · rw [hmet]
      simp only [List.pairwise_cons, List.mem_cons, forall_eq_or_imp]
      exact ⟨⟨hplace, fun q hq => .inr (hbehind hq).1⟩, fun q hq => .inr (hbehind hq).2,
        ih hpath.tail hpath.holds.2.2.1 (by omega) (passed + 1)⟩
    · -- the header that was left behind is met, and then the entry at the beginning of the buffer
      rw [hmet]
      simp only [List.pairwise_cons, List.mem_cons, forall_eq_or_imp]
      exact ⟨⟨.inl trivial, hplace, hplace, fun q hq => .inr (hbehind hq).1⟩,
        ⟨hplace, hplace, fun q hq => .inr (hbehind hq).1⟩,
        ⟨.inl trivial, fun q hq => .inr (hbehind hq).2⟩, fun q hq => .inr (hbehind hq).2,
        ih hpath.tail hpath.holds.2.2.1 (by omega) (passed + 1)⟩

theorem Path.positions_last (hpath : Path log offset es) {fuel : Nat} (hfuel : 2 * es.length + 1 ≤ fuel)
    (passed : Nat) : (positions log fuel offset passed).getLast? = some (log.end_, passed + es.length) := by
  induction es generalizing offset fuel passed with
  | nil =>
    obtain ⟨fuel, rfl⟩ : ∃ k, fuel = k + 1 := ⟨fuel - 1, by omega⟩
    obtain rfl : offset = log.end_ := hpath.reaches
    rw [positions, hpath.get_entry_nil]
    rfl
  | cons x es ih =>
    rw [List.length_cons] at hfuel ⊢
    obtain ⟨fuel, rfl⟩ : ∃ k, fuel = k + 2 := ⟨fuel - 2, by omega⟩
    have hcount : passed + (es.length + 1) = passed + 1 + es.length := by omega
    rw [hcount]
    obtain hmet | hmet := hpath.positions_entry fuel passed
    · have hlast := ih hpath.tail (by omega : 2 * es.length + 1 ≤ fuel + 1) (passed + 1)
      simp [hmet, List.getLast?_cons, hlast]
    · have hlast := ih hpath.tail (by omega : 2 * es.length + 1 ≤ fuel) (passed + 1)
      simp [hmet, List.getLast?_cons, hlast]

/-- There is enough fuel for the whole walk. -/
theorem Path.walk_fuel (hpath : Path log offset es) : 2 * es.length + 1 ≤ log.len + 1 := by
  have hlength := hpath.length_le
  unfold SIZEOF_ENTRY at hlength
  omega

theorem Path.offsets_falls (hpath : Path log log.head es) (hhead : log.head < log.len) :
    (walk_offsets log).Pairwise fun p q =>
      p = q ∨ log_offset_end_distance log q < log_offset_end_distance log p :=
  List.pairwise_map.mpr (hpath.positions_falls hhead hpath.walk_fuel 0)

theorem Path.offsets_last (hpath : Path log log.head es) : (walk_offsets log).getLast? = some log.end_ := by
  rw [walk_offsets, List.getLast?_map, log_positions, hpath.positions_last hpath.walk_fuel 0]
  rfl

theorem offsets_head (log : dare_log_t) : (walk_offsets log).head? = some log.head := rfl

/-- An offset that is met last is larger. -/
theorem Path.larger_iff (hpath : Path log log.head es) (hhead : log.head < log.len) {l r : Nat}
    (hl : l ∈ walk_offsets log) (hr : r ∈ walk_offsets log) :
    log_is_offset_larger log l r = true ↔ MetAfter log l r := by
  rw [log_is_offset_larger, decide_eq_true_eq, MetAfter, rank.idxOf_lt_idxOf_iff (hpath.offsets_falls hhead) hr hl]

/-- Two offsets that are met have the same distance to the end only if they are equal. -/
theorem Path.larger_total (hpath : Path log log.head es) (hhead : log.head < log.len) :
    IsStrictTotalOrder { o // o ∈ walk_offsets log } fun l r => log_is_offset_larger log l r = true where
  trichotomous l r hnot hnot' := by
    rw [hpath.larger_iff hhead l.2 r.2, MetAfter] at hnot
    rw [hpath.larger_iff hhead r.2 l.2, MetAfter] at hnot'
    have heq : (walk_offsets log).idxOf l.1 = (walk_offsets log).idxOf r.1 := by omega
    exact Subtype.ext ((List.idxOf_inj l.2).mp heq)
  irrefl l := by simp [log_is_offset_larger]
  trans l r t hlarger hlarger' := by
    rw [log_is_offset_larger, decide_eq_true_eq] at hlarger hlarger' ⊢
    exact Nat.lt_trans hlarger hlarger'

end walk

section steps

variable {log log' : dare_log_t} {es : List dare_log_entry_t} {passed l r : Nat}

/-- The head is inside the buffer, also if the log is still empty. -/
theorem Built.head_lt (hbuilt : Built log es passed) : log.head < log.len := by
  induction hbuilt with
  | new => decide
  | append term req_id clt_id data hbuilt hok happend ih =>
    obtain ⟨-, happ, -⟩ := roomy_appended hbuilt.readable.2 hok happend
    rw [happ.head, happ.len]
    exact ih
  | advance_head hbuilt hboundary ih =>
    obtain ⟨-, hempty, -⟩ | hpath := hbuilt.readable.2.path
    · rw [(mem_positions_of_empty hempty hboundary).1]
      exact ih
    · obtain ⟨k, -, hk, hat⟩ := hpath.of_mem_positions hboundary
      obtain rfl | hlt := RecordFormat.at_start_or_lt hpath.holds hk hat
      · exact ih
      · exact hlt
  | move apply commit tail hbuilt ih => exact ih

/-- The entries of a log that is not empty, from the head on. -/
theorem Built.path (hbuilt : Built log es passed) (hnonempty : is_log_empty log = false) :
    Path log log.head (es.drop passed) := by
  obtain ⟨-, hempty, -⟩ | hpath := hbuilt.readable.2.path
  · simp [is_log_empty, hempty] at hnonempty
  · exact hpath

theorem Built.step (hbuilt : Built log es passed) (hstep : LogStep log log') :
    ∃ es' passed', Built log' es' passed' := by
  cases hstep with
  | append term req_id clt_id data hok happend => exact ⟨_, _, hbuilt.append term req_id clt_id data hok happend⟩
  | advance_head hboundary => exact ⟨_, _, hbuilt.advance_head hboundary⟩
  | move apply commit tail => exact ⟨_, _, hbuilt.move apply commit tail⟩

/-- An append moves the end away from all offsets that are met by the same number of bytes. -/
theorem Built.append_distance {idx term req_id : UInt64} {clt_id : UInt16} {data : log_data}
    (hbuilt : Built log es passed) (hnonempty : is_log_empty log = false)
    (hok : RoomyAppend log term req_id clt_id data)
    (happend : log_append_entry log term req_id clt_id data = (log', idx)) (hl : l ∈ walk_offsets log) :
    log_offset_end_distance log' l = log_offset_end_distance log l + append_bytes log data := by
  obtain ⟨-, hread⟩ := hbuilt.readable
  obtain ⟨count, hmem⟩ := mem_walk_offsets.mp hl
  obtain ⟨hidx, happ, hnext, hroom⟩ := roomy_appended hread hok happend
  have hpath := hbuilt.path hnonempty
  obtain ⟨k, -, hk, hat⟩ := hpath.of_mem_positions hmem
  have hfrom := hpath.at_record hk hat
  have hspan := (RecordFormat.holds_at hpath.holds hk hat).2.2
  have hsum := hroom hpath
  have hlater := hfrom.appended happ (by omega) hnext
  rw [hlater.end_distance, hfrom.end_distance, happ.len, RecordFormat.span_append, RecordFormat.span_singleton,
    hfrom.reaches, append_bytes_eq_cost log term req_id clt_id data, hidx]
  rfl

/-- One step does not change the order of offsets that are met before it. -/
theorem Built.step_keeps_larger (hbuilt : Built log es passed) (hnonempty : is_log_empty log = false)
    (hstep : LogStep log log') (hl : l ∈ walk_offsets log) (hr : r ∈ walk_offsets log) :
    is_log_empty log' = false ∧ log_is_offset_larger log' l r = log_is_offset_larger log l r := by
  cases hstep with
  | append term req_id clt_id data hok happend =>
    have hlater := (hbuilt.append term req_id clt_id data hok happend).readable.2
    refine ⟨?_, ?_⟩
    · obtain ⟨hnil, -⟩ | hpath := hlater.path
      · rw [List.drop_append_of_le_length hbuilt.readable.1] at hnil
        simp at hnil
      · exact hpath.not_empty
    · rw [log_is_offset_larger, hbuilt.append_distance hnonempty hok happend hl,
        hbuilt.append_distance hnonempty hok happend hr, log_is_offset_larger]
      simp only [Nat.add_lt_add_iff_right]
  | advance_head hboundary => exact ⟨hnonempty, rfl⟩
  | move apply commit tail => exact ⟨hnonempty, rfl⟩

/-- Neither do all later steps, as long as both offsets stay live. -/
theorem Built.stay_larger (hbuilt : Built log es passed) (hnonempty : is_log_empty log = false)
    (hl : l ∈ walk_offsets log) (hr : r ∈ walk_offsets log) (hlater : StayLive l r log log') :
    log_is_offset_larger log' l r = log_is_offset_larger log l r := by
  have hinv : (∃ es' passed', Built log' es' passed') ∧ is_log_empty log' = false ∧ l ∈ walk_offsets log' ∧
      r ∈ walk_offsets log' ∧ log_is_offset_larger log' l r = log_is_offset_larger log l r := by
    induction hlater with
    | refl => exact ⟨⟨es, passed, hbuilt⟩, hnonempty, hl, hr, rfl⟩
    | tail _ hstep ih =>
      obtain ⟨⟨es', passed', hbuilt'⟩, hnonempty', hl', hr', hsame⟩ := ih
      obtain ⟨hnext, hkept⟩ := hbuilt'.step_keeps_larger hnonempty' hstep.1 hl' hr'
      exact ⟨hbuilt'.step hstep.1, hnext, hstep.2.1, hstep.2.2, hkept.trans hsame⟩
  exact hinv.2.2.2.2

/-- In every log that is built by appends with enough room and head advances and is not empty, offsets compare in
    the order in which a reader meets them between the head and the end. -/
theorem offsets_compare_as_met (hbuilt : Built log es passed) (hnonempty : is_log_empty log = false) :
    ComparesAsMet log := by
  have hpath := hbuilt.path hnonempty
  have hhead := hbuilt.head_lt
  exact ⟨offsets_head log, hpath.offsets_last, fun l hl r hr => hpath.larger_iff hhead hl hr,
    hpath.larger_total hhead, fun l hl r hr log' hlater => hbuilt.stay_larger hnonempty hl hr hlater⟩

theorem wrapped_log_compares :
    ∃ log es, Built log es 1 ∧ es.length = 1024 ∧ log.end_ < log.head ∧ ComparesAsMet log := by
  obtain ⟨log, es, hbuilt, hcount, hwrap, hnonempty, -⟩ := wrapped_log_built
  exact ⟨log, es, hbuilt, hcount, hwrap, offsets_compare_as_met hbuilt hnonempty⟩

end steps

end dare.log
