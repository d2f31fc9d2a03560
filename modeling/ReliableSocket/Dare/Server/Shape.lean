import ReliableSocket.Dare.Server.Reconf

open memory dare.log run

namespace dare.server

/-- The shape of a configuration in a group that began with `group_size` servers and never shrinks. -/
structure Shape (group_size : UInt8) (cid : dare_cid_t) : Prop where
  stable : cid.state = CID_STABLE → cid.size_1 = 0
  resize : cid.state ≠ CID_STABLE → cid.size_1.toNat = cid.size_0.toNat + 1
  below : ∀ i, CID_IS_SERVER_ON cid i = true → i < get_extended_group_size cid
  grown : group_size.toNat ≤ cid.size_0.toNat

section shape

variable {group_size : UInt8} {cid : dare_cid_t}

theorem extended_stable (hstable : cid.state = CID_STABLE) :
    get_extended_group_size cid = cid.size_0.toNat := by
  rw [get_extended_group_size, if_pos hstable]

theorem extended_resize (hresize : cid.state ≠ CID_STABLE)
    (hsizes : cid.size_1.toNat = cid.size_0.toNat + 1) :
    get_extended_group_size cid = cid.size_1.toNat := by
  have hlt : cid.size_0 < cid.size_1 := by
    rw [UInt8.lt_iff_toNat_lt]
    omega
  rw [get_extended_group_size, if_neg hresize, if_pos hlt]

/-- A server comes in a place that the group has. -/
theorem Shape.add (hcid : Shape group_size cid) {i : Nat} (hi : i < get_extended_group_size cid)
    (hmask : i < 32) : Shape group_size (CID_SERVER_ADD cid i) := by
  refine ⟨hcid.stable, hcid.resize, fun j hj => ?_, hcid.grown⟩
  rw [is_on_add hmask, Bool.or_eq_true, decide_eq_true_eq] at hj
  obtain hj | rfl := hj
  · exact hcid.below j hj
  · exact hi

theorem Shape.rm (hcid : Shape group_size cid) {i : Nat} (hmask : i < 32) :
    Shape group_size (CID_SERVER_RM cid i) := by
  refine ⟨hcid.stable, hcid.resize, fun j hj => ?_, hcid.grown⟩
  rw [is_on_rm hmask, Bool.and_eq_true] at hj
  exact hcid.below j hj.1

/-- The group grows: the new server is behind the old ones. -/
theorem Shape.joined (hcid : Shape group_size cid) (hstable : cid.state = CID_STABLE) {empty : Nat}
    (hempty : empty = cid.size_0.toNat ∨ empty < cid.size_0.toNat)
    (hplace : empty = cid.size_0.toNat → cid.size_0.toNat < MAX_SERVER_COUNT)
    (hbounded : cid.size_0.toNat ≤ MAX_SERVER_COUNT) : Shape group_size (joined_cid cid empty) := by
  have hmax : MAX_SERVER_COUNT = 13 := rfl
  simp only [joined_cid]
  split
  · rename_i hlast
    have hroom := hplace hlast
    have hsize : (cid.size_0 + 1).toNat = cid.size_0.toNat + 1 := by
      rw [UInt8.toNat_add, UInt8.toNat_one, Nat.mod_eq_of_lt (by omega)]
    have hresize : CID_EXTENDED ≠ CID_STABLE := by decide
    refine ⟨fun h => absurd h hresize, fun _ => hsize, fun i hi => ?_, hcid.grown⟩
    rw [extended_resize hresize hsize, hsize]
    have hon : CID_IS_SERVER_ON (CID_SERVER_ADD cid empty) i = true := hi
    rw [is_on_add (by omega), Bool.or_eq_true, decide_eq_true_eq] at hon
    obtain hon | rfl := hon
    · have hlt := hcid.below i hon
      rw [extended_stable hstable] at hlt
      omega
    · omega
  · rename_i hlast
    have hlt : empty < cid.size_0.toNat := hempty.resolve_left hlast
    exact hcid.add (by rw [extended_stable hstable]; exact hlt) (by omega)

/-- Both states of a resize have the same sizes. -/
theorem Shape.transit (hcid : Shape group_size cid) (hresize : cid.state ≠ CID_STABLE) :
    Shape group_size { cid with state := CID_TRANSIT } := by
  have hstate : CID_TRANSIT ≠ CID_STABLE := by decide
  refine ⟨fun h => absurd h hstate, fun _ => hcid.resize hresize, fun i hi => ?_, hcid.grown⟩
  have hsame : get_extended_group_size { cid with state := CID_TRANSIT } = cid.size_1.toNat :=
    extended_resize hstate (hcid.resize hresize)
  rw [hsame, ← extended_resize hresize (hcid.resize hresize)]
  exact hcid.below i hi

theorem Shape.settled (hcid : Shape group_size cid) (hresize : cid.state ≠ CID_STABLE) :
    Shape group_size { cid with state := CID_STABLE, size_0 := cid.size_1, size_1 := 0 } := by
  have hsizes := hcid.resize hresize
  have hgrown := hcid.grown
  refine ⟨fun _ => rfl, fun h => absurd rfl h, fun i hi => ?_, by dsimp only; omega⟩
  have hlt := hcid.below i hi
  rw [extended_resize hresize hsizes] at hlt
  rw [extended_stable rfl]
  exact hlt

theorem shape_start (hsize : group_size.toNat ≤ MAX_SERVER_COUNT) :
    Shape group_size ((List.range group_size.toNat).foldl CID_SERVER_ADD
      { epoch := 0, size_0 := group_size, size_1 := 0, state := CID_STABLE, bitmask := 0 }) := by
  have hmax : MAX_SERVER_COUNT = 13 := rfl
  have hfold : ∀ (is : List Nat) (cid : dare_cid_t), (∀ i ∈ is, i < group_size.toNat) →
      cid.state = CID_STABLE → cid.size_0 = group_size → Shape group_size cid →
      Shape group_size (is.foldl CID_SERVER_ADD cid) := by
    intro is
    induction is with
    | nil => exact fun _ _ _ _ hcid => hcid
    | cons i is ih =>
      intro cid his hstable hsize_0 hcid
      rw [List.forall_mem_cons] at his
      refine ih _ his.2 hstable hsize_0 (hcid.add ?_ (by omega))
      rw [extended_stable hstable, hsize_0]
      exact his.1
  refine hfold _ _ (fun i hi => List.mem_range.mp hi) rfl rfl ⟨fun _ => rfl, fun h => absurd rfl h, ?_, ?_⟩
  · intro i hi
    simp [CID_IS_SERVER_ON] at hi
  · exact Nat.le_refl _

end shape

section loops

variable {s : apply_t}

theorem remove_servers_none (fuel : Nat) {i : Nat} (hi : s.data.cid.size_0.toNat ≤ i) :
    remove_servers fuel i s = s := by
  cases fuel with
  | zero => rfl
  | succ fuel => rw [remove_servers, if_neg (Nat.not_lt_of_le hi)]

theorem remove_additional_none {i : Nat} (hi : i ≤ s.data.cid.size_1.toNat) :
    remove_additional i s = s := by
  cases i with
  | zero => rfl
  | succ i => rw [remove_additional, if_neg (Nat.not_lt_of_le hi)]

theorem settle_config_grown (hlast : (s.data.cid.size_0 - 1).toNat ≤ s.data.cid.size_1.toNat) :
    settle_config s = s.set_cid
      { s.data.cid with state := CID_STABLE, size_0 := s.data.cid.size_1, size_1 := 0 } :=
  congrArg (fun t : apply_t => t.set_cid { t.data.cid with size_0 := t.data.cid.size_1, size_1 := 0 })
    (remove_additional_none (s := s.set_cid { s.data.cid with state := CID_STABLE }) hlast)

theorem remove_servers_frame (fuel i : Nat) (s : apply_t) :
    (remove_servers fuel i s).data.idx = s.data.idx ∧
      (remove_servers fuel i s).data.servers = s.data.servers := by
  induction fuel generalizing i s with
  | zero => exact ⟨rfl, rfl⟩
  | succ fuel ih =>
    rw [remove_servers]
    split
    · split
      · exact ih _ _
      · split
        · exact ih _ _
        · exact ih _ _
    · exact ⟨rfl, rfl⟩

end loops

/-- The entry makes the leader take the next step of a resize. -/
def Resizes (cid logged : dare_cid_t) : Prop :=
  (logged.state = CID_EXTENDED ∨ logged.state = CID_TRANSIT) ∧ ¬ logged.epoch < cid.epoch

theorem Resizes.isOpen {cid logged : dare_cid_t} (hresize : Resizes cid logged) : Open cid logged := by
  refine ⟨?_, hresize.2⟩
  obtain hstate | hstate := hresize.1 <;> rw [hstate] <;> decide

/-- What a leader keeps of its data, besides the shape of its configuration: it stays in its group, and
    has never failed to access itself. -/
structure Kept (group_size : UInt8) (data data' : dare_server_data_t) : Prop where
  cid : Shape group_size data'.cid
  idx : data'.idx = data.idx
  own : data.is_on data.idx = true → data'.is_on data.idx = true
  alive : (data'.servers data'.idx).fail_count < PERMANENT_FAILURE

/-- The data of a leader in a group that has its shape. -/
def Leads (group_size : UInt8) (data : dare_server_data_t) : Prop :=
  Shape group_size data.cid ∧ (data.servers data.idx).fail_count < PERMANENT_FAILURE

section kept

variable {group_size : UInt8} {data data' : dare_server_data_t} {s : apply_t} {g : group_t}

/-- Only state and sizes change. -/
theorem kept_of_bitmask (hdata : Leads group_size data) (hcid : Shape group_size data'.cid)
    (hmask : data'.cid.bitmask = data.cid.bitmask) (hidx : data'.idx = data.idx)
    (hservers : data'.servers = data.servers) : Kept group_size data data' := by
  refine ⟨hcid, hidx, fun hon => ?_, ?_⟩
  · rw [dare_server_data_t.is_on, CID_IS_SERVER_ON, hmask]
    exact hon
  · rw [hidx, hservers]
    exact hdata.2

theorem kept_of_eq (hdata : Leads group_size data) (hcid : data'.cid = data.cid)
    (hidx : data'.idx = data.idx) (hservers : data'.servers = data.servers) :
    Kept group_size data data' :=
  kept_of_bitmask hdata (hcid ▸ hdata.1) (by rw [hcid]) hidx hservers

theorem is_on_rm_other {cid : dare_cid_t} {i j : Nat} (hother : CID_IS_SERVER_ON cid i = true)
    (hne : i ≠ j) (hon : CID_IS_SERVER_ON cid j = true) :
    CID_IS_SERVER_ON (CID_SERVER_RM cid i) j = true := by
  rw [is_on_rm (lt_of_is_on hother), hon, decide_eq_false hne]
  rfl

theorem kept_remove (hdata : Leads group_size data) {i : Nat} (hon : data.is_on i = true)
    (hne : i ≠ data.idx) (hcid : data'.cid = CID_SERVER_RM data.cid i) (hidx : data'.idx = data.idx)
    (hservers : data'.servers = data.servers) : Kept group_size data data' := by
  refine ⟨hcid ▸ hdata.1.rm (lt_of_is_on hon), hidx, fun hown => ?_, ?_⟩
  · rw [dare_server_data_t.is_on, hcid]
    exact is_on_rm_other hon hne hown
  · rw [hidx, hservers]
    exact hdata.2

theorem apply_config_keeps (s : apply_t) (entry : Nat) :
    (apply_config s entry).data.idx = s.data.idx ∧
      (apply_config s entry).data.servers = s.data.servers := by
  have hloop : ∀ s : apply_t, (remove_servers 256 s.data.cid.size_1.toNat s).data.idx = s.data.idx ∧
      (remove_servers 256 s.data.cid.size_1.toNat s).data.servers = s.data.servers :=
    fun s => remove_servers_frame 256 _ s
  simp only [apply_config]
  split
  · split
    · split <;> exact ⟨rfl, rfl⟩
    · exact ⟨rfl, rfl⟩
  · split
    · exact ⟨rfl, rfl⟩
    · split
      · split <;> exact ⟨rfl, rfl⟩
      · split
        · exact hloop (s.set_cid { s.data.cid with state := CID_STABLE })
        · exact ⟨rfl, rfl⟩

/-- A committed entry of a resize is applied during a resize. -/
theorem kept_apply_config (hdata : Leads group_size s.data) (entry : Nat)
    (hresize : Resizes s.data.cid (dare_cid_t.read s.log.entries (entry + DATA_OFFSET)) →
      s.data.cid.state ≠ CID_STABLE) :
    Kept group_size s.data (apply_config s entry).data := by
  obtain ⟨hidx, hservers⟩ := apply_config_keeps s entry
  generalize hlogged : dare_cid_t.read s.log.entries (entry + DATA_OFFSET) = logged at hresize
  by_cases hopen : Open s.data.cid logged
  · by_cases hextended : logged.state = CID_EXTENDED
    · have hcid := apply_config_extended hlogged hopen hextended
      have hstate := hresize ⟨.inl hextended, hopen.2⟩
      refine kept_of_bitmask hdata ?_ (by rw [hcid]) hidx hservers
      rw [hcid]
      exact hdata.1.transit hstate
    · by_cases htransit : logged.state = CID_TRANSIT
      · obtain ⟨stable, hstable, hcid⟩ := apply_config_transit hlogged hopen htransit
        have hstate := hresize ⟨.inr htransit, hopen.2⟩
        -- the loop starts at the new size, which is behind the old one
        have hnone := remove_servers_none 256 (s := s.set_cid { s.data.cid with state := CID_STABLE })
          (i := s.data.cid.size_1.toNat) (by
            rw [hdata.1.resize hstate]
            exact Nat.le_succ _)
        rw [hnone] at hstable
        rw [hstable] at hcid
        refine kept_of_bitmask hdata ?_ (by rw [hcid]; rfl) hidx hservers
        rw [hcid]
        exact hdata.1.settled hstate
      · exact kept_of_eq hdata (apply_config_other hlogged hopen hextended htransit) hidx hservers
  · exact kept_of_eq hdata (by rw [apply_config_settled hlogged hopen]) hidx hservers

/-- Applied in a stable configuration, it destroys the shape. -/
theorem shape_lost (hcid : Shape group_size s.data.cid) (hpos : 0 < group_size.toNat)
    (hstable : s.data.cid.state = CID_STABLE) {entry : Nat}
    (hresize : Resizes s.data.cid (dare_cid_t.read s.log.entries (entry + DATA_OFFSET))) :
    ¬ Shape group_size (apply_config s entry).data.cid := by
  intro hafter
  have hsize := hcid.stable hstable
  have hopen := hresize.isOpen
  obtain hextended | htransit := hresize.1
  · rw [apply_config_extended rfl hopen hextended] at hafter
    have hsizes := hafter.resize (show CID_TRANSIT ≠ CID_STABLE by decide)
    dsimp only at hsizes
    rw [hsize] at hsizes
    exact absurd hsizes (Nat.succ_ne_zero _).symm
  · obtain ⟨stable, hloop, heq⟩ := apply_config_transit rfl hopen htransit
    have hzero : stable.size_1 = 0 := by
      rw [hloop]
      exact remove_servers_keeps (Q := fun cid => cid.size_1 = 0) (fun _ _ h => h) 256 _ hsize
    have hgrown := hafter.grown
    rw [heq] at hgrown
    dsimp only at hgrown
    rw [hzero] at hgrown
    exact absurd hgrown (Nat.not_le_of_lt hpos)

/-- The first entry of a term continues a resize, and leaves a stable configuration as it is. -/
theorem kept_append_blank (hdata : Leads group_size s.data) (hpos : 0 < group_size.toNat)
    (unapplied : Bool) (entry_state : UInt8) :
    Kept group_size s.data (append_blank s unapplied entry_state).data := by
  simp only [append_blank]
  split
  · exact kept_of_eq hdata rfl rfl rfl
  · rename_i hresize
    split
    · exact kept_of_eq hdata rfl rfl rfl
    · split
      · exact kept_of_bitmask hdata (hdata.1.transit hresize) rfl rfl rfl
      · have hsizes := hdata.1.resize hresize
        have hgrown := hdata.1.grown
        have hlast : (s.data.cid.size_0 - 1).toNat ≤ s.data.cid.size_1.toNat := by
          rw [UInt8.toNat_sub_of_le _ _ (by rw [UInt8.le_iff_toNat_le, UInt8.toNat_one]; omega)]
          omega
        rw [settle_config_grown hlast]
        exact kept_of_bitmask hdata (hdata.1.settled hresize) rfl rfl rfl

theorem kept_check_failure_count (hdata : Leads group_size s.data) :
    Kept group_size s.data (check_failure_count s).data := by
  simp only [check_failure_count]
  split
  · exact kept_of_eq hdata rfl rfl rfl
  · split
    · -- the leader is not among the servers that it suspects
      have hremoved := remove_failed_keeps (get_group_size s.data.cid)
        (Q := fun cid => Shape group_size cid ∧
          (s.data.is_on s.data.idx = true → CID_IS_SERVER_ON cid s.data.idx = true))
        (fun cid i hremoves hcid => by
          simp only [removes_failed, Bool.and_eq_true, decide_eq_true_eq] at hremoves
          have hne : i ≠ s.data.idx := by
            rintro rfl
            exact Nat.not_lt_of_le hremoves.1.1.2 hdata.2
          exact ⟨hcid.1.rm (lt_of_is_on hremoves.1.1.1),
            fun hon => is_on_rm_other hremoves.1.1.1 hne (hcid.2 hon)⟩)
        ⟨hdata.1, fun hon => hon⟩
      exact ⟨hremoved.1, rfl, hremoved.2, hdata.2⟩
    · exact kept_of_eq hdata rfl rfl rfl

theorem log_pruning_keeps (g : group_t) :
    (log_pruning g).data.cid = g.data.cid ∧ (log_pruning g).data.idx = g.data.idx ∧
      (log_pruning g).data.servers = g.data.servers := by
  unfold log_pruning
  dsimp only
  split
  · exact ⟨rfl, rfl, rfl⟩
  · exact advance_head_keeps _ _

theorem kept_force_log_pruning (hdata : Leads group_size g.data) :
    Kept group_size g.data (force_log_pruning g).data := by
  unfold force_log_pruning
  dsimp only
  split
  · exact kept_of_eq hdata rfl rfl rfl
  · split
    · obtain ⟨hcid, hidx, hservers⟩ :=
        log_pruning_keeps (g.access (List.range (get_extended_group_size g.cid)))
      exact kept_of_eq hdata hcid hidx hservers
    · rename_i target htarget
      have hremoves : target ≠ g.data.idx ∧ g.data.is_on target = true := by
        simp only [removes_slow, Option.ite_none_right_eq_some, Bool.and_eq_true, decide_eq_true_eq,
          Option.some.injEq] at htarget
        obtain ⟨⟨⟨-, hne⟩, hon⟩, rfl⟩ := htarget
        exact ⟨hne, hon⟩
      obtain ⟨hcid, hidx, hservers⟩ := log_pruning_keeps _
      exact kept_remove hdata hremoves.2 hremoves.1 hcid hidx hservers

theorem kept_join (hdata : Leads group_size g.data) (hbounded : Bounded g.cid) {wc_slid : UInt16}
    (id : UInt64) (slid : UInt16)
    (hplace : upsizes g wc_slid = true → g.cid.size_0.toNat < MAX_SERVER_COUNT) :
    Kept group_size g.data (handle_server_join_request g wc_slid id slid).data := by
  unfold handle_server_join_request
  dsimp only
  split
  · exact kept_of_eq hdata rfl rfl rfl
  · rename_i hstable
    rw [not_not] at hstable
    split
    · exact kept_of_eq hdata rfl rfl rfl
    · rename_i empty hfound
      have hempty := (find_empty_bounds g.cid g.lid wc_slid g.cid.size_0.toNat g.cid.size_0.toNat).2
        empty hfound
      have hlast : empty = g.cid.size_0.toNat → g.cid.size_0.toNat < MAX_SERVER_COUNT := by
        rintro rfl
        exact hplace (by simp [upsizes, hstable, hfound])
      have hmask : empty < 32 := by
        have hmax : MAX_SERVER_COUNT = 13 := rfl
        have hsize := hbounded.1
        omega
      refine ⟨hdata.1.joined hstable hempty hlast hbounded.1, rfl, fun hon => ?_, ?_⟩
      · have hadded : CID_IS_SERVER_ON (CID_SERVER_ADD g.cid empty) g.data.idx = true := by
          rw [is_on_add hmask, Bool.or_eq_true]
          exact .inl hon
        show CID_IS_SERVER_ON (joined_cid g.cid empty) g.data.idx = true
        simp only [joined_cid]
        split <;> exact hadded
      · show (Function.update g.data.servers empty _ g.data.idx).fail_count < PERMANENT_FAILURE
        by_cases hidx : g.data.idx = empty
        · rw [hidx, Function.update_self]
          exact (by decide : 0 < PERMANENT_FAILURE)
        · rw [Function.update_of_ne hidx]
          exact hdata.2

end kept

/-- The leader's configuration has its shape and the leader has never removed itself, in a run that has
    stayed within the arrays of servers (behind them nothing is known of the data). -/
def Sound (group_size : UInt8) (g : group_t) : Prop :=
  InArrays g ∧ Shape group_size g.cid ∧ g.removed_itself = false

/-- There is place for what the leader does, and an entry of a resize is applied only during a
    resize. -/
def InResize (g : group_t) : Task → Prop
  | .apply entry =>
    g.entry_cid entry ∈ g.history → Resizes g.cid (g.entry_cid entry) → g.cid.state ≠ CID_STABLE
  | task => HasPlace g task

/-- The condition for a leader that has not shut down. -/
def ResizesInTurn (g : group_t) : Action → Prop
  | .task task => g.srv.running = true → InResize g task
  | .elect .. => True

/-- What holds in every state that is reached under the condition. -/
structure ShapedGroup (group_size : UInt8) (g : group_t) : Prop where
  bounded : BoundedGroup g
  leads : Leads group_size g.data
  history : ∀ cid ∈ g.history, Shape group_size cid
  kept : g.removed_itself = false

section runs

variable {group_size : UInt8} {g : group_t}

theorem hasPlace_of_inResize {task : Task} (hok : InResize g task) : HasPlace g task := by
  cases task with
  | apply => trivial
  | _ => exact hok

theorem kept_act (hg : ShapedGroup group_size g) (hpos : 0 < group_size.toNat) (task : Task)
    (hok : InResize g task) : Kept group_size g.data (act g task).data := by
  have hsame : ∀ data : dare_server_data_t, data.cid = g.data.cid → data.idx = g.data.idx →
      data.servers = g.data.servers → Kept group_size g.data data := fun _ => kept_of_eq hg.leads
  cases task with
  | join wc_slid id slid => exact kept_join hg.leads hg.bounded.cid id slid hok
  | apply entry =>
    rw [act]
    split
    · rename_i hmem
      exact kept_apply_config hg.leads entry (hok hmem)
    · exact hsame _ rfl rfl rfl
  | failure i =>
    rw [act]
    split
    · exact hsame _ rfl rfl rfl
    · rename_i hother
      refine ⟨hg.leads.1, rfl, fun hon => hon, ?_⟩
      show (Function.update g.data.servers i _ g.data.idx).fail_count < PERMANENT_FAILURE
      rw [Function.update_of_ne (Ne.symm hother)]
      exact hg.leads.2
  | check_failure_count => exact kept_check_failure_count hg.leads
  | log_pruning =>
    obtain ⟨hcid, hidx, hservers⟩ := log_pruning_keeps g
    exact hsame _ hcid hidx hservers
  | force_log_pruning => exact kept_force_log_pruning hg.leads
  | update_remote_logs => exact hsame _ rfl rfl rfl
  | log log => exact hsame _ rfl rfl rfl
  | apply_offset i offset => exact hsame _ rfl rfl rfl
  | blank unapplied entry_state => exact kept_append_blank hg.leads hpos unapplied entry_state

theorem update_cid_frame (s : apply_t) (cid : dare_cid_t) :
    (update_cid s cid).data.idx = s.data.idx ∧ (update_cid s cid).data.servers = s.data.servers := by
  unfold update_cid
  split <;> exact ⟨rfl, rfl⟩

theorem leads_elect (hg : ShapedGroup group_size g) (data : dare_server_data_t)
    (adopted : List dare_cid_t) : Leads group_size (elect g data adopted).data := by
  unfold elect
  split
  · rename_i hguard
    refine ⟨update_cid_keeps (hg.history _ hguard.1) fun cid hcid => hg.history _ (hguard.2.1 cid hcid),
      ?_⟩
    have hframe : ∀ (adopted : List dare_cid_t) (s : apply_t),
        (s.data.servers s.data.idx).fail_count < PERMANENT_FAILURE →
        ((adopted.foldl update_cid s).data.servers (adopted.foldl update_cid s).data.idx).fail_count <
          PERMANENT_FAILURE := by
      intro adopted
      induction adopted with
      | nil => exact fun _ halive => halive
      | cons cid adopted ih =>
        intro s halive
        obtain ⟨hidx, hservers⟩ := update_cid_frame s cid
        refine ih (update_cid s cid) ?_
        rw [hidx, hservers]
        exact halive
    exact hframe _ _ hguard.2.2
  · exact hg.leads

theorem elect_removed_itself (g : group_t) (data : dare_server_data_t) (adopted : List dare_cid_t) :
    (elect g data adopted).removed_itself = g.removed_itself := by
  unfold elect
  split <;> rfl

theorem act_removed_itself (g : group_t) (task : Task) :
    (record g (act g task)).removed_itself = false ↔ g.removed_itself = false ∧
      (g.data.is_on g.data.idx = true → (act g task).data.is_on g.data.idx = true) := by
  simp only [record, Bool.or_eq_false_iff, Bool.and_eq_false_iff, Bool.not_eq_false']
  refine and_congr_right fun _ => ?_
  cases g.data.is_on g.data.idx <;> simp

theorem leavesPlace_of_resizesInTurn {a : Action} (hok : ResizesInTurn g a) : LeavesPlace g a := by
  cases a with
  | task task => exact fun hrunning => hasPlace_of_inResize (hok hrunning)
  | elect data adopted => trivial

theorem shaped_step (hpos : 0 < group_size.toNat) (g : group_t) (a : Action)
    (hg : ShapedGroup group_size g) (hok : ResizesInTurn g a) : ShapedGroup group_size (step g a) := by
  have hbounded := bounded_step g a hg.bounded (leavesPlace_of_resizesInTurn hok)
  have hhistory : ∀ after : group_t, Shape group_size after.cid →
      ∀ cid ∈ g.history ++ [after.cid], Shape group_size cid :=
    fun after hafter => List.forall_mem_append.mpr ⟨hg.history, List.forall_mem_singleton.mpr hafter⟩
  cases a with
  | task task =>
    by_cases hrunning : g.srv.running = true
    · have hkept := kept_act hg hpos task (hok hrunning)
      have hstep : step g (.task task) = record g (act g task) := if_pos hrunning
      rw [hstep] at hbounded ⊢
      exact ⟨hbounded, ⟨hkept.cid, hkept.alive⟩, hhistory _ hkept.cid,
        (act_removed_itself g task).mpr ⟨hg.kept, hkept.own⟩⟩
    · have hstep : step g (.task task) = g := if_neg hrunning
      rw [hstep]
      exact hg
  | elect data adopted =>
    have hleads := leads_elect hg data adopted
    refine ⟨hbounded, hleads, hhistory _ hleads.1, ?_⟩
    show (elect g data adopted).removed_itself = false
    rw [elect_removed_itself]
    exact hg.kept

/-- A step after which the group is sound has met the condition. -/
theorem resizesInTurn_of_sound (hpos : 0 < group_size.toNat) (g : group_t) (a : Action)
    (hg : ShapedGroup group_size g) (hafter : Sound group_size (step g a)) : ResizesInTurn g a := by
  cases a with
  | elect data adopted => trivial
  | task task =>
    intro hrunning
    have hplace : HasPlace g task := leavesPlace_of_inArrays g (.task task) hafter.1 hrunning
    have hstep : step g (.task task) = record g (act g task) := if_pos hrunning
    have hshape : Shape group_size (act g task).cid := by
      have hshape := hafter.2.1
      rw [hstep] at hshape
      exact hshape
    cases task with
    | apply entry =>
      intro hmem hresize hstable
      rw [act, if_pos hmem] at hshape
      exact shape_lost hg.leads.1 hpos hstable hresize hshape
    | _ => exact hplace

theorem shaped_lead {idx : Nat} {data : dare_server_data_t}
    (hstart : init_server_data idx group_size = some data) (sid : UInt64) (lid : Nat → UInt16) :
    ShapedGroup group_size (lead { data with sid := sid } lid) := by
  have hbounded := bounded_lead hstart sid lid
  unfold init_server_data at hstart
  split at hstart
  · cases hstart
  · rename_i hsize
    obtain rfl := Option.some.inj hstart
    have hcid := shape_start (Nat.le_of_not_lt hsize)
    exact ⟨hbounded, ⟨hcid, (by decide : 0 < PERMANENT_FAILURE)⟩, List.forall_mem_singleton.mpr hcid, rfl⟩

end runs

/-- For every run from the start of an admitted group: the leader's configuration keeps its shape and the
    leader never removes itself exactly when the arrays of servers have place for what it does, and a
    committed entry of a resize never finds the resize ended. -/
theorem configuration_keeps_shape {idx : Nat} {group_size : UInt8} {data : dare_server_data_t}
    (hstart : init_server_data idx group_size = some data) (hpos : 0 < group_size.toNat) (sid : UInt64)
    (lid : Nat → UInt16) (actions : List Action) :
    Always step (Sound group_size) (lead { data with sid := sid } lid) actions ↔
      AllOk step ResizesInTurn (lead { data with sid := sid } lid) actions :=
  always_iff_allOk (shaped_step hpos) (resizesInTurn_of_sound hpos)
    (fun _ hg => ⟨hg.bounded.arrays, hg.leads.1, hg.kept⟩) (shaped_lead hstart sid lid) actions

/-- A server joins and both entries of the resize are committed. -/
theorem resize_of_three_keeps_shape :
    Always step (Sound 3) (started_group 3 admits_three)
      [.task (.join 100 1 100), .task (.apply 0), .task (.apply 48)] :=
  (configuration_keeps_shape (Option.some_get admits_three).symm (by decide) _ _ _).mpr
    ⟨fun _ _ => by decide, fun _ _ _ => by decide, fun _ _ _ => by decide +kernel, trivial⟩

/-- The log is full up to three quarters and server 1 has applied nothing. A server joins, server 1 is
    removed while the group is extended, and all CONFIG entries are committed one after the other. -/
def resize_twice : List Action :=
  [.task (.log { log_new with
      apply := 50331648, commit := 50331648, end_ := 50331648, tail := 50331600 }),
    .task (.apply_offset 0 50331648), .task (.join 100 1 100), .task .force_log_pruning,
    .task (.apply 50331648), .task (.apply 50331696), .task (.apply 50331744), .task (.apply 50331792)]

/-- The second TRANSIT entry is applied when the resize has ended: the leader removes all servers, itself
    among them, from a group that then has size 0. -/
theorem second_transit_empties_group :
    (steps step (started_group 3 admits_three) resize_twice).cid =
        { epoch := 1, size_0 := 0, size_1 := 0, state := CID_STABLE, bitmask := 0 } ∧
      (steps step (started_group 3 admits_three) resize_twice).removed_itself = true := by
  decide +kernel

end dare.server
