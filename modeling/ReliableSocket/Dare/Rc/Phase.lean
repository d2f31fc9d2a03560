import ReliableSocket.Dare.Rc.Frame

open memory ring
open dare.log dare.server

namespace dare.rc

/-- The bytes of the entries `es` that lie between two offsets are copied, except for those that
    some of the given operations still have to write. -/
def CopiedExcept (c : Nat) (es : List dare_log_entry_t) (log remote : dare_log_t) (start stop : Nat)
    (operations : List log_operation) : Prop :=
  ∀ b, b < log.len → Between start stop b → ring.dist log.len c b < entry_format.span log.len c es →
    (∀ offset len, .write_entries offset len ∈ operations → ¬(offset ≤ b ∧ b < offset + len)) →
    remote.entries b = log.entries b

/-- How far the replication of the leader's entries `es` to server `i` has come. Both logs have the
    offset `c`, from which on the server had the entries `ys`; `operations` are the pending requests.
    From the first update on the server has a growing part of `es` instead. -/
inductive Phase (i c : Nat) (ys es : List dare_log_entry_t) (log remote : dare_log_t)
    (server : server_t) (offsets : log_offsets_t) (operations : List log_operation) : Prop where
  | get_write (hstep : server.next_lr_step = .LR_GET_WRITE)
      (hheld : entry_format.Holds log.len remote.entries c ys) (hops : operations = [])
  | get_nce_len (hstep : server.next_lr_step = .LR_GET_NCE_LEN)
      (hheld : entry_format.Holds log.len remote.entries c ys) (hcommit : offsets.commit = c)
      (hops : operations = [] ∨ operations = [.read_nc_len])
  | get_nce (hstep : server.next_lr_step = .LR_GET_NCE)
      (hheld : entry_format.Holds log.len remote.entries c ys) (hcommit : offsets.commit = c)
      (hlen : nc_buf_len log i = ys.length)
      (hops : operations = [] ∨ (ys ≠ [] ∧ operations = [.read_nc_entries (ys.length * SIZEOF_DET)]))
  | set_end (hstep : server.next_lr_step = .LR_SET_END)
      (hheld : entry_format.Holds log.len remote.entries c ys)
      (hne : ys ≠ []) (hrecords : Records log i log.len c ys)
      (hops : operations = [] ∨ (operations = [.write_end offsets.end_] ∧
        ∃ n ≤ es.length, es.take n = ys.take n ∧ Boundary log.len c es n offsets.end_))
  | update_log (k n : Nat) (hstep : server.next_lr_step = .LR_UPDATE_LOG) (hkn : k ≤ n)
      (hn : n ≤ es.length) (hheld : entry_format.Holds log.len remote.entries c (es.take k))
      (hend : Boundary log.len c es k offsets.end_)
      (hwrites : ∀ operation ∈ operations, ∃ offset len, operation = .write_entries offset len)
      (hcount : operations ≠ [] → server.send_count ≤ 2 ∧ operations.length ≤ 2 ∧
        (server.send_count ≤ 1 → operations.length ≤ 1))
      (hcopied : operations ≠ [] → server.send_count = operations.length →
        server.cached_end_offset = entry_format.advance log.len c (es.take n) ∧
        CopiedExcept c (es.take n) log remote offsets.end_ server.cached_end_offset operations)
  | update_end (n : Nat) (hstep : server.next_lr_step = .LR_UPDATE_END) (hn : n ≤ es.length)
      (hheld : entry_format.Holds log.len remote.entries c (es.take n))
      (hcached : server.cached_end_offset = entry_format.advance log.len c (es.take n))
      (hops : operations = [] ∨ (operations = [.write_end server.cached_end_offset] ∧
        offsets.end_ = server.cached_end_offset))

section readable

variable {log : dare_log_t} {before es : List dare_log_entry_t} {c : Nat}

/-- The log holds every part of the entries that are read from it. -/
theorem holds_take_of_readableFrom (hread : ReadableFrom log before c es) (n : Nat) :
    entry_format.Holds log.len log.entries c (es.take n) := by
  obtain ⟨-, rfl, -⟩ | ⟨-, hpath, -⟩ := hread.paths
  · rw [List.take_nil]
    trivial
  · have hholds := hpath.holds
    rw [← List.take_append_drop n es, RecordFormat.holds_append] at hholds
    exact hholds.1

theorem start_le_of_readableFrom (hread : ReadableFrom log before c es) : c ≤ log.len := by
  obtain ⟨-, -, -, -, rfl⟩ | ⟨-, hpath, -⟩ := hread.paths
  · exact Nat.zero_le _
  · exact hpath.start_le

theorem span_take_le (len c : Nat) (es : List dare_log_entry_t) (n : Nat) :
    entry_format.span len c (es.take n) ≤ entry_format.span len c es := by
  have hsum : entry_format.span len c (es.take n ++ es.drop n) = _ :=
    RecordFormat.span_append c (es.take n) (es.drop n)
  rw [List.take_append_drop] at hsum
  omega

theorem span_lt_of_readableFrom (hread : ReadableFrom log before c es) (n : Nat) :
    entry_format.span log.len c (es.take n) < log.len := by
  have hle := span_take_le log.len c es n
  obtain ⟨-, rfl, -⟩ | ⟨-, hpath, -⟩ := hread.paths
  · have hlen := hread.len
    rw [LOG_SIZE_eq] at hlen
    simp only [RecordFormat.span] at hle
    omega
  · have hspan := hpath.span_lt
    omega

end readable

/-- The parts of the log that are written cover the whole way. -/
theorem log_parts_cover {len start stop b : Nat} (hb : b < len) (hbetween : Between start stop b) :
    ∃ offset m, .write_entries offset m ∈ log_parts len start stop ∧ offset ≤ b ∧ b < offset + m := by
  unfold Between at hbetween
  unfold log_parts
  by_cases hone : start < stop
  · rw [if_pos hone] at hbetween ⊢
    exact ⟨start, stop - start, by simp, by omega, by omega⟩
  · rw [if_neg hone] at hbetween ⊢
    by_cases hhigh : start ≤ b
    · exact ⟨start, len - start, by simp, hhigh, by omega⟩
    · have hpos : 0 < stop := by omega
      refine ⟨0, stop, ?_, Nat.zero_le _, by omega⟩
      simp [hpos]

section copied

variable {log remote : dare_log_t} {before es : List dare_log_entry_t} {c k n start stop : Nat}
  {operations : List log_operation}

/-- Once everything is copied the remote log holds the entries of the leader. -/
theorem holds_of_copiedExcept_nil (hread : ReadableFrom log before c es) (hkn : k ≤ n)
    (hheld : entry_format.Holds log.len remote.entries c (es.take k))
    (hend : Boundary log.len c es k start)
    (hcopied : CopiedExcept c (es.take n) log remote start
      (entry_format.advance log.len c (es.take n)) []) :
    entry_format.Holds log.len remote.entries c (es.take n) := by
  have hsplit : es.take n = es.take k ++ (es.take n).drop k := by
    conv => lhs; rw [← List.take_append_drop k (es.take n), List.take_take, Nat.min_eq_left hkn]
  have hholds := holds_take_of_readableFrom hread n
  have hspan := span_lt_of_readableFrom hread n
  have hc := start_le_of_readableFrom hread
  unfold CopiedExcept at hcopied
  rw [hsplit] at hholds hspan hcopied ⊢
  rw [RecordFormat.holds_append] at hholds ⊢
  rw [RecordFormat.span_append] at hspan hcopied
  rw [RecordFormat.advance_append] at hcopied
  refine ⟨hheld, ?_⟩
  have ho := RecordFormat.advance_le hholds.1 hc
  cases hrest : (es.take n).drop k with
  | nil => trivial
  | cons x xs =>
    rw [hrest] at hholds hspan hcopied
    refine RecordFormat.holds_of_copied ho hend.start hholds.2 (by omega) ?_
    intro b hb hbetween hnear
    have hfar := RecordFormat.dist_advance_add (b := b) hc hholds.1 (by omega)
    exact hcopied b hb hbetween (by omega) (by simp)

/-- Writing one of the parts leaves the others. -/
theorem CopiedExcept.write {offset len i : Nat}
    (hcopied : CopiedExcept c es log remote start stop (.write_entries offset len :: operations)) :
    CopiedExcept c es log (execute i (.write_entries offset len) len log remote).2 start stop
      operations := by
  intro b hb hbetween hnear hrest
  rw [entries_execute_write, Nat.min_self]
  by_cases hin : offset ≤ b ∧ b < offset + len
  · exact copy_inside hin.1 hin.2
  · rw [copy_outside (by omega)]
    apply hcopied b hb hbetween hnear
    intro offset' len' hmem
    obtain heq | hmem := List.mem_cons.mp hmem
    · obtain ⟨rfl, rfl⟩ := log_operation.write_entries.inj heq
      exact hin
    · exact hrest offset' len' hmem

theorem CopiedExcept.congr_log {log' : dare_log_t} (hlen : log'.len = log.len)
    (hagree : ∀ b, ring.dist log.len c b < entry_format.span log.len c es → log'.entries b = log.entries b)
    (hcopied : CopiedExcept c es log remote start stop operations) :
    CopiedExcept c es log' remote start stop operations := by
  intro b hb hbetween hnear hrest
  rw [hlen] at hb hnear
  rw [hagree b hnear]
  exact hcopied b hb hbetween hnear hrest

end copied

section transitions

variable {i c : Nat} {before es ys : List dare_log_entry_t} {log log' remote : dare_log_t}
  {server : server_t} {offsets : log_offsets_t} {operations rest : List log_operation}
  {operation : log_operation}

/-- Changes of the leader's log that leave its entries and the buffer of the server alone. -/
theorem Phase.mono (hslots : ys.length ≤ MAX_NC_ENTRIES) (hlen : log'.len = log.len)
    (hbuf : ∀ a, nc_buf_addr i ≤ a → a < nc_buf_addr (i + 1) → log'.mem a = log.mem a)
    (hagree : ∀ b, ring.dist log.len c b < entry_format.span log.len c es → log'.entries b = log.entries b)
    (more : List dare_log_entry_t) (hphase : Phase i c ys es log remote server offsets operations) :
    Phase i c ys (es ++ more) log' remote server offsets operations := by
  have htake : ∀ {n}, n ≤ es.length → (es ++ more).take n = es.take n :=
    fun hn => List.take_append_of_le_length hn
  have hlonger : ∀ {n}, n ≤ es.length → n ≤ (es ++ more).length := fun hn => by
    rw [List.length_append]
    omega
  cases hphase with
  | get_write hstep hheld hops => exact .get_write hstep (by rwa [hlen]) hops
  | get_nce_len hstep hheld hcommit hops => exact .get_nce_len hstep (by rwa [hlen]) hcommit hops
  | get_nce hstep hheld hcommit hcount hops =>
    refine .get_nce hstep (by rwa [hlen]) hcommit ?_ hops
    rw [nc_buf_len_congr fun a hlow hhigh => hbuf a hlow ?_, hcount]
    have hlast := nc_det_addr_last i
    have hzero := nc_det_addr_zero i
    have hfirst := nc_det_addr_mono i (Nat.zero_le MAX_NC_ENTRIES)
    omega
  | set_end hstep hheld hne hrecords hops =>
    refine .set_end hstep (by rwa [hlen]) hne ?_ ?_
    · rw [hlen]
      exact records_congr hslots hbuf hrecords
    · rw [hlen]
      refine hops.imp_right fun ⟨hop, n, hn, hsame, hend⟩ => ⟨hop, n, hlonger hn, ?_, hend.append hn more⟩
      rw [htake hn, hsame]
  | update_log k n hstep hkn hn hheld hend hwrites hcount hcopied =>
    have hk : k ≤ es.length := Nat.le_trans hkn hn
    refine .update_log k n hstep hkn (hlonger hn) ?_ ?_ hwrites hcount ?_
    · rwa [hlen, htake hk]
    · rw [hlen]
      exact hend.append hk more
    · intro hne hparts
      obtain ⟨hcached, hcopied⟩ := hcopied hne hparts
      rw [hlen, htake hn]
      refine ⟨hcached, hcopied.congr_log hlen fun b hnear => hagree b ?_⟩
      exact Nat.lt_of_lt_of_le hnear (span_take_le _ _ _ _)
  | update_end n hstep hn hheld hcached hops =>
    refine .update_end n hstep (hlonger hn) ?_ ?_ hops
    · rwa [hlen, htake hn]
    · rwa [hlen, htake hn]

theorem Phase.alike (hphase : Phase i c ys es log remote server offsets operations)
    (hslots : ys.length ≤ MAX_NC_ENTRIES) (halike : Alike i log log') :
    Phase i c ys es log' remote server offsets operations := by
  have hmono := hphase.mono hslots halike.len (fun a hlow hhigh => halike.mem a (.inl ⟨hlow, hhigh⟩))
    (fun b _ => congrFun halike.entries b) []
  rwa [List.append_nil] at hmono

/-- The length word that is read is the one of the remote log. -/
theorem nc_buf_len_read : nc_buf_len (execute i .read_nc_len 8 log remote).1 i = nc_buf_len remote i :=
  nc_buf_len_congr fun _ hlow hhigh => copy_inside hlow hhigh

/-- Reading determinants, however many, leaves the length word. -/
theorem nc_buf_len_read_entries {len bytes : Nat} :
    nc_buf_len (execute i (.read_nc_entries len) bytes log remote).1 i = nc_buf_len log i := by
  refine nc_buf_len_congr fun a _ hhigh => copy_outside (.inl ?_)
  rw [nc_det_addr_zero]
  omega

/-- Reading all determinants makes the buffer record the same entries as that of the server. -/
theorem records_read_entries {len n : Nat} (hrecords : Records remote i len c ys)
    (hcount : nc_buf_len log i = ys.length) (hn : n = ys.length * SIZEOF_DET) :
    Records (execute i (.read_nc_entries n) n log remote).1 i len c ys := by
  refine ⟨nc_buf_len_read_entries.trans hcount, fun j hj => ?_⟩
  rw [← hrecords.det j hj]
  refine nc_buf_det_congr fun a hlow hhigh => ?_
  have hstart := nc_det_addr_mono i (Nat.zero_le j)
  have hstop : nc_det_addr i (j + 1) ≤ nc_det_addr i 0 + n := by
    have hmono := nc_det_addr_mono i (show j + 1 ≤ ys.length from hj)
    have hlast : nc_det_addr i ys.length = nc_det_addr i 0 + n := by
      rw [hn, nc_det_addr_zero, nc_det_addr, Nat.mul_comm]
    omega
  exact copy_inside (by omega) (by rw [Nat.min_self]; omega)

/-- The entries that a server shares with the leader are held by its log. -/
theorem holds_take_of_same {n : Nat} (hheld : entry_format.Holds log.len remote.entries c ys)
    (hsame : es.take n = ys.take n) : entry_format.Holds log.len remote.entries c (es.take n) := by
  rw [← List.take_append_drop n ys, RecordFormat.holds_append] at hheld
  rw [hsame]
  exact hheld.1

/-- A part of the leader's entries that the server has stays, whatever part is copied over it. -/
theorem holds_write {k : Nat} (offset len bytes : Nat) (hread : ReadableFrom log before c es)
    (hheld : entry_format.Holds log.len remote.entries c (es.take k)) :
    entry_format.Holds log.len (execute i (.write_entries offset len) bytes log remote).2.entries c
      (es.take k) := by
  rw [entries_execute_write]
  exact RecordFormat.holds_mixed (mixed_copy _ _ _ _) (holds_take_of_readableFrom hread k) hheld

theorem phase_update_log_idle {k : Nat} (hstep : server.next_lr_step = .LR_UPDATE_LOG)
    (hk : k ≤ es.length) (hheld : entry_format.Holds log.len remote.entries c (es.take k))
    (hend : Boundary log.len c es k offsets.end_) :
    Phase i c ys es log remote server offsets [] :=
  .update_log k k hstep (Nat.le_refl _) hk hheld hend (by simp) (by simp) (by simp)

/-- Outside the update of the log there is at most one pending request, and a completed update leaves
    none. -/
theorem Phase.last (hphase : Phase i c ys es log remote server offsets (operation :: rest)) :
    rest = [] ∨ (server.next_lr_step = .LR_UPDATE_LOG ∧ server.send_count = 2) := by
  cases hphase with
  | get_write _ _ hops => cases hops
  | get_nce_len _ _ _ hops => exact hops.elim nofun fun hops => .inl (List.cons.inj hops).2
  | get_nce _ _ _ _ hops => exact hops.elim nofun fun hops => .inl (List.cons.inj hops.2).2
  | set_end _ _ _ _ hops => exact hops.elim nofun fun hops => .inl (List.cons.inj hops.1).2
  | update_log k n hstep _ _ _ _ _ hcount _ =>
    obtain ⟨hsmall, hparts, hlast⟩ := hcount (List.cons_ne_nil _ _)
    rw [List.length_cons] at hparts hlast
    by_cases htwo : server.send_count = 2
    · exact .inr ⟨hstep, htwo⟩
    · have hone := hlast (by omega)
      exact .inl (List.length_eq_zero_iff.mp (by omega))
  | update_end _ _ _ _ _ hops => exact hops.elim nofun fun hops => .inl (List.cons.inj hops.1).2

/-- The leader only posts again when nothing is pending. -/
theorem Phase.idle (hphase : Phase i c ys es log remote server offsets (operation :: rest))
    (hbusy : server.send_flag = false) (success : Bool)
    (hflag : (if success then lr_success server else lr_failure server).send_flag = true) :
    rest = [] := by
  obtain hrest | ⟨hstep, htwo⟩ := hphase.last
  · exact hrest
  · cases success with
    | false => simp [lr_failure, hstep, htwo, hbusy] at hflag
    | true => simp [lr_success, hstep, htwo, hbusy] at hflag

theorem Phase.success (hread : ReadableFrom log before c es) (hrecords : Records remote i log.len c ys)
    (hphase : Phase i c ys es log remote server offsets (operation :: rest)) :
    Phase i c ys es (execute i operation operation.len log remote).1
      (execute i operation operation.len log remote).2 (lr_success server) offsets rest := by
  cases hphase with
  | get_write _ _ hops => cases hops
  | get_nce_len hstep hheld hcommit hops =>
    obtain hops | hops := hops
    · cases hops
    · obtain ⟨rfl, rfl⟩ := List.cons.inj hops
      exact .get_nce (by simp [lr_success, hstep]) hheld hcommit
        (nc_buf_len_read.trans hrecords.nc_len) (.inl rfl)
  | get_nce hstep hheld hcommit hcount hops =>
    obtain hops | ⟨hne, hops⟩ := hops
    · cases hops
    · obtain ⟨rfl, rfl⟩ := List.cons.inj hops
      exact .set_end (by simp [lr_success, hstep]) hheld hne
        (records_read_entries hrecords hcount rfl) (.inl rfl)
  | set_end hstep hheld _ _ hops =>
    obtain hops | ⟨hops, n, hn, hsame, hend⟩ := hops
    · cases hops
    · obtain ⟨rfl, rfl⟩ := List.cons.inj hops
      exact phase_update_log_idle (by simp [lr_success, hstep]) hn
        (holds_take_of_same hheld hsame) hend
  | update_log k n hstep hkn hn hheld hend hwrites hcount hcopied =>
    have hk : k ≤ es.length := Nat.le_trans hkn hn
    obtain ⟨offset, len, rfl⟩ := hwrites _ (List.mem_cons_self ..)
    obtain ⟨hsmall, hparts, hlast⟩ := hcount (List.cons_ne_nil _ _)
    have hcopied := hcopied (List.cons_ne_nil _ _)
    simp only [List.length_cons] at hparts hlast hcopied
    have hheld' := holds_write (i := i) offset len len hread hheld
    obtain hzero | hone | htwo : server.send_count = 0 ∨ server.send_count = 1 ∨
        server.send_count = 2 := by omega
    · -- the other part has failed before
      have hrest : rest = [] := List.length_eq_zero_iff.mp (by have := hlast (by omega); omega)
      subst hrest
      exact phase_update_log_idle (by simp [lr_success, hstep, hzero]) hk hheld' hend
    · have hrest : rest = [] := List.length_eq_zero_iff.mp (by have := hlast (by omega); omega)
      subst hrest
      obtain ⟨hcached, hcopied⟩ := hcopied (by simpa using hone)
      rw [hcached] at hcopied
      refine .update_end n (by simp [lr_success, hstep, hone]) hn ?_ ?_ (.inl rfl)
      · exact holds_of_copiedExcept_nil hread hkn hheld' hend hcopied.write
      · exact (lr_success_kept server).1.trans hcached
    · refine .update_log k n (by simp [lr_success, hstep, htwo]) hkn hn hheld' hend
        (fun o ho => hwrites o (List.mem_cons_of_mem _ ho)) ?_ ?_
      · intro _
        simp only [lr_success, hstep, htwo]
        omega
      · intro _ hcount
        have hlength : rest.length = 1 := by simpa [lr_success, hstep, htwo] using hcount.symm
        obtain ⟨hcached, hcopied⟩ := hcopied (by omega)
        simp only [lr_success, hstep, htwo]
        exact ⟨hcached, hcopied.write⟩
  | update_end n hstep hn hheld hcached hops =>
    obtain hops | ⟨hops, hend⟩ := hops
    · cases hops
    · obtain ⟨rfl, rfl⟩ := List.cons.inj hops
      exact phase_update_log_idle (by simp [lr_success, hstep]) hn hheld
        (.inl (hend.trans hcached))

/-- The oldest pending request fails, after some of its bytes have been transferred. -/
theorem Phase.failure (hread : ReadableFrom log before c es) (bytes : Nat)
    (hphase : Phase i c ys es log remote server offsets (operation :: rest)) :
    Phase i c ys es (execute i operation bytes log remote).1
      (execute i operation bytes log remote).2 (lr_failure server) offsets rest := by
  cases hphase with
  | get_write _ _ hops => cases hops
  | get_nce_len hstep hheld hcommit hops =>
    obtain hops | hops := hops
    · cases hops
    · obtain ⟨rfl, rfl⟩ := List.cons.inj hops
      exact .get_nce_len (by simp [lr_failure, hstep]) hheld hcommit (.inl rfl)
  | get_nce hstep hheld hcommit hcount hops =>
    obtain hops | ⟨-, hops⟩ := hops
    · cases hops
    · obtain ⟨rfl, rfl⟩ := List.cons.inj hops
      exact .get_nce (by simp [lr_failure, hstep]) hheld hcommit
        (nc_buf_len_read_entries.trans hcount) (.inl rfl)
  | set_end hstep hheld hne hrecords hops =>
    obtain hops | ⟨hops, -⟩ := hops
    · cases hops
    · obtain ⟨rfl, rfl⟩ := List.cons.inj hops
      exact .set_end (by simp [lr_failure, hstep]) hheld hne hrecords (.inl rfl)
  | update_log k n hstep hkn hn hheld hend hwrites hcount hcopied =>
    have hk : k ≤ es.length := Nat.le_trans hkn hn
    obtain ⟨offset, len, rfl⟩ := hwrites _ (List.mem_cons_self ..)
    obtain ⟨hsmall, hparts, hlast⟩ := hcount (List.cons_ne_nil _ _)
    simp only [List.length_cons] at hparts hlast
    have hheld' := holds_write (i := i) offset len bytes hread hheld
    obtain hsingle | htwo : server.send_count ≤ 1 ∨ server.send_count = 2 := by omega
    · have hrest : rest = [] := List.length_eq_zero_iff.mp (by have := hlast hsingle; omega)
      subst hrest
      refine phase_update_log_idle ?_ hk hheld' hend
      obtain hzero | hone : server.send_count = 0 ∨ server.send_count = 1 := by omega
      · simp [lr_failure, hstep, hzero]
      · simp [lr_failure, hstep, hone]
    · -- the second part is on its way, but it no longer completes the update
      refine .update_log k n (by simp [lr_failure, hstep, htwo]) hkn hn hheld' hend
        (fun o ho => hwrites o (List.mem_cons_of_mem _ ho)) ?_ ?_
      · intro _
        simp only [lr_failure, hstep, htwo]
        omega
      · intro hne hcount
        simp only [lr_failure, hstep, htwo] at hcount
        exact absurd (List.length_eq_zero_iff.mp hcount.symm) hne
  | update_end n hstep hn hheld hcached hops =>
    obtain hops | ⟨hops, -⟩ := hops
    · cases hops
    · obtain ⟨rfl, rfl⟩ := List.cons.inj hops
      exact .update_end n (by simp [lr_failure, hstep]) hn hheld
        ((lr_failure_kept server).1.trans hcached) (.inl rfl)

end transitions
end dare.rc
