import ReliableSocket.Dare.Server.Reconf

open memory dare.log run

namespace dare.server

section search

variable {cid : dare_cid_t} {lid : Nat → UInt16} {wc_slid : UInt16}

/-- The search ends early just if a server of the group has the LID of the work completion. -/
theorem find_empty_none_iff (i empty : Nat) :
    (find_empty cid lid wc_slid i empty).1 = none ↔
      ∃ j < i, CID_IS_SERVER_ON cid j = true ∧ lid j = wc_slid := by
  induction i generalizing empty with
  | zero => simp [find_empty]
  | succ i ih =>
    rw [find_empty, Nat.exists_lt_succ_right]
    split
    · rename_i hon
      split
      · rename_i hlid
        exact iff_of_true rfl (.inr ⟨hon, hlid⟩)
      · rename_i hlid
        rw [ih, or_iff_left fun h => hlid h.2]
    · rename_i hoff
      rw [ih, or_iff_left fun h => hoff h.1]

/-- The place that is found is empty, or it is the one from before the search. -/
theorem find_empty_place {i empty place : Nat} (hfound : (find_empty cid lid wc_slid i empty).1 = some place) :
    place = empty ∨ place < i ∧ CID_IS_SERVER_ON cid place = false := by
  induction i generalizing empty with
  | zero =>
    rw [find_empty, Option.some.injEq] at hfound
    exact .inl hfound.symm
  | succ i ih =>
    rw [find_empty] at hfound
    split at hfound
    · split at hfound
      · cases hfound
      · exact (ih hfound).imp_right fun h => ⟨Nat.lt_succ_of_lt h.1, h.2⟩
    · rename_i hoff
      obtain rfl | h := ih hfound
      · exact .inr ⟨Nat.lt_succ_self _, Bool.not_eq_true _ ▸ hoff⟩
      · exact .inr ⟨Nat.lt_succ_of_lt h.1, h.2⟩

end search

section joining

/-- What happens while a server is in the group: the leader does something, the handshake message of a server
    gives its LID, or another server becomes the leader, with the LIDs of its own endpoints. -/
inductive join_event where
  | task (task : Task)
  | handshake (i : Nat) (slid : UInt16)
  | elect (data : dare_server_data_t) (adopted : List dare_cid_t) (lid : Nat → UInt16)

/-- The part of `handle_rc_syn` and `handle_rc_synack` that sets the endpoint of a server. -/
def handle_handshake (g : group_t) (i : Nat) (slid : UInt16) : group_t :=
  if CID_IS_SERVER_ON g.cid i && !(g.data.servers i).rc_connected then
    { g with lid := Function.update g.lid i slid }
  else g

def join_step (g : group_t) : join_event → group_t
  | .task task => step g (.task task)
  | .handshake i slid => handle_handshake g i slid
  | .elect data adopted lid => { step g (.elect data adopted) with lid := lid }

/-- The leader accepts a request and puts the server in this place. -/
def Accepts (g : group_t) (wc_slid : UInt16) (place : Nat) : Prop :=
  g.srv.running = true ∧ g.cid.state = CID_STABLE ∧
    (find_empty g.cid g.lid wc_slid g.cid.size_0.toNat g.cid.size_0.toNat).1 = some place

/-- The server stays in its place, the mask has a bit for each server, and the handshake messages for this place
    and the endpoints of a new leader are those of the server. -/
def Stays (slid : UInt16) (place : Nat) (g : group_t) (e : join_event) : Prop :=
  place < get_extended_group_size g.cid ∧ CID_IS_SERVER_ON g.cid place = true ∧ g.cid.size_0.toNat ≤ 32 ∧
    match e with
    | .task _ => True
    | .handshake i slid' => i = place → slid' = slid
    | .elect _ _ lid => lid place = slid

/-- A request of the server changes neither the configuration nor the log. -/
def Ignores (wc_slid slid : UInt16) (g : group_t) (e : join_event) : Prop :=
  ∀ id, e = .task (.join wc_slid id slid) → (join_step g e).cid = g.cid ∧ (join_step g e).data.log = g.data.log

/-- A request of the server is met in an unstable configuration, or the work completion has the LID that the
    server sends, or the LID of another server of the group. -/
def Recognises (wc_slid slid : UInt16) (place : Nat) (g : group_t) (e : join_event) : Prop :=
  ∀ id, e = .task (.join wc_slid id slid) → g.srv.running = true → g.cid.state = CID_STABLE →
    wc_slid = slid ∨
      ∃ i < g.cid.size_0.toNat, i ≠ place ∧ CID_IS_SERVER_ON g.cid i = true ∧ g.lid i = wc_slid

variable {g : group_t} {wc_slid slid : UInt16} {place : Nat} {e : join_event}

theorem log_pruning_lid (g : group_t) : (log_pruning g).lid = g.lid := by
  unfold log_pruning
  dsimp only
  split <;> rfl

theorem force_log_pruning_lid (g : group_t) : (force_log_pruning g).lid = g.lid := by
  unfold force_log_pruning
  dsimp only
  split
  · rfl
  · split
    · exact log_pruning_lid _
    · exact log_pruning_lid _

/-- Only a join request changes the endpoints. -/
theorem act_lid (g : group_t) {task : Task} (hjoin : ∀ wc_slid id slid, task ≠ .join wc_slid id slid) :
    (act g task).lid = g.lid := by
  cases task with
  | join wc_slid id slid => exact absurd rfl (hjoin wc_slid id slid)
  | force_log_pruning => exact force_log_pruning_lid g
  | log_pruning => exact log_pruning_lid g
  | apply entry =>
    rw [act]
    split <;> rfl
  | failure i =>
    rw [act]
    split <;> rfl
  | _ => rfl

/-- A request does not touch the place of a server that is in a stable configuration. -/
theorem join_lid (hplace : place < get_extended_group_size g.cid) (hon : CID_IS_SERVER_ON g.cid place = true)
    (id : UInt64) : (handle_server_join_request g wc_slid id slid).lid place = g.lid place := by
  unfold handle_server_join_request
  dsimp only
  split
  · rfl
  · rename_i hstable
    split
    · rfl
    · rename_i empty hfound
      have hsize : place < g.cid.size_0.toNat := by
        rw [get_extended_group_size, if_pos (not_not.mp hstable)] at hplace
        exact hplace
      have hne : place ≠ empty := by
        rintro rfl
        obtain heq | ⟨-, hoff⟩ := find_empty_place hfound
        · omega
        · rw [hon] at hoff
          cases hoff
      exact Function.update_of_ne hne _ _

theorem join_step_lid (hlid : g.lid place = slid) (hstays : Stays slid place g e) :
    (join_step g e).lid place = slid := by
  obtain ⟨hplace, hon, -, hevent⟩ := hstays
  cases e with
  | task task =>
    rw [← hlid]
    show (step g (.task task)).lid place = _
    rw [step]
    split
    · show (act g task).lid place = _
      by_cases hjoin : ∃ wc_slid id slid, task = .join wc_slid id slid
      · obtain ⟨wc_slid, id, slid', rfl⟩ := hjoin
        exact join_lid hplace hon id
      · rw [act_lid g fun wc_slid id slid h => hjoin ⟨wc_slid, id, slid, h⟩]
    · rfl
  | handshake i slid' =>
    show (handle_handshake g i slid').lid place = slid
    rw [handle_handshake]
    split
    · by_cases hi : place = i
      · subst hi
        exact (Function.update_self ..).trans (hevent rfl)
      · exact (Function.update_of_ne hi ..).trans hlid
    · exact hlid
  | elect data adopted lid => exact hevent

/-- A server that is added makes the configuration another one. -/
theorem joined_cid_ne {cid : dare_cid_t} {empty : Nat} (hstable : cid.state = CID_STABLE)
    (hsize : cid.size_0.toNat ≤ 32)
    (hempty : empty = cid.size_0.toNat ∨ empty < cid.size_0.toNat ∧ CID_IS_SERVER_ON cid empty = false) :
    joined_cid cid empty ≠ cid := by
  intro h
  by_cases hlast : empty = cid.size_0.toNat
  · have hstate := congrArg dare_cid_t.state h
    rw [joined_cid, if_pos hlast, hstable] at hstate
    cases hstate
  · obtain ⟨hlt, hoff⟩ := hempty.resolve_left hlast
    rw [joined_cid, if_neg hlast] at h
    have hon : CID_IS_SERVER_ON (CID_SERVER_ADD cid empty) empty = true := by
      rw [is_on_add (Nat.lt_of_lt_of_le hlt hsize), decide_eq_true rfl, Bool.or_true]
    rw [h, hoff] at hon
    cases hon

/-- A request changes nothing in a stable configuration just if the LID is found. -/
theorem join_unchanged_iff (hstable : g.cid.state = CID_STABLE) (hsize : g.cid.size_0.toNat ≤ 32) (id : UInt64) :
    ((handle_server_join_request g wc_slid id slid).cid = g.cid ∧
        (handle_server_join_request g wc_slid id slid).data.log = g.data.log) ↔
      ∃ i < g.cid.size_0.toNat, CID_IS_SERVER_ON g.cid i = true ∧ g.lid i = wc_slid := by
  rw [← find_empty_none_iff g.cid.size_0.toNat g.cid.size_0.toNat, handle_server_join_request,
    if_neg (not_not.mpr hstable)]
  dsimp only
  split
  · rename_i hnone
    exact iff_of_true ⟨rfl, rfl⟩ hnone
  · rename_i empty hfound
    have hchanged := joined_cid_ne hstable hsize (find_empty_place hfound)
    exact iff_of_false (fun h => hchanged h.1) (by rw [hfound]; exact Option.some_ne_none empty)

/-- In a stable configuration the LID is found at the place of the server or at another one. -/
theorem found_iff (hlid : g.lid place = slid) (hplace : place < g.cid.size_0.toNat)
    (hon : CID_IS_SERVER_ON g.cid place = true) :
    (∃ i < g.cid.size_0.toNat, CID_IS_SERVER_ON g.cid i = true ∧ g.lid i = wc_slid) ↔
      wc_slid = slid ∨
        ∃ i < g.cid.size_0.toNat, i ≠ place ∧ CID_IS_SERVER_ON g.cid i = true ∧ g.lid i = wc_slid := by
  constructor
  · rintro ⟨i, hi, hon', hfound⟩
    by_cases hsame : i = place
    · rw [hsame, hlid] at hfound
      exact .inl hfound.symm
    · exact .inr ⟨i, hi, hsame, hon', hfound⟩
  · rintro (rfl | ⟨i, hi, -, hfound⟩)
    · exact ⟨place, hplace, hon, hlid⟩
    · exact ⟨i, hi, hfound⟩

theorem ignores_iff (hlid : g.lid place = slid) (hstays : Stays slid place g e) :
    Ignores wc_slid slid g e ↔ Recognises wc_slid slid place g e := by
  obtain ⟨hplace, hon, hsize, -⟩ := hstays
  refine forall_congr' fun id => forall_congr' fun he => ?_
  subst he
  by_cases hrunning : g.srv.running = true
  · have hstep : join_step g (.task (.join wc_slid id slid)) =
        record g (handle_server_join_request g wc_slid id slid) := by
      rw [join_step, step, if_pos hrunning, act]
    rw [hstep]
    by_cases hstable : g.cid.state = CID_STABLE
    · rw [get_extended_group_size, if_pos hstable] at hplace
      simp only [hrunning, hstable, forall_const]
      exact (join_unchanged_iff hstable hsize id).trans (found_iff hlid hplace hon)
    · have hsame : handle_server_join_request g wc_slid id slid = g := by
        rw [handle_server_join_request, if_pos hstable]
      rw [hsame]
      exact iff_of_true ⟨rfl, rfl⟩ fun _ h => absurd h hstable
  · have hstep : join_step g (.task (.join wc_slid id slid)) = g := by
      rw [join_step, step, if_neg hrunning]
    rw [hstep]
    exact iff_of_true ⟨rfl, rfl⟩ fun h => absurd h hrunning

/-- The endpoint of a server that was accepted has the LID that its message carries. -/
theorem accepted_lid (haccepts : Accepts g wc_slid place) (id : UInt64) (slid : UInt16) :
    (join_step g (.task (.join wc_slid id slid))).lid place = slid := by
  obtain ⟨hrunning, hstable, hfound⟩ := haccepts
  rw [join_step, step, if_pos hrunning, act, handle_server_join_request, if_neg (not_not.mpr hstable)]
  simp only [hfound]
  exact Function.update_self ..

/-- For every run after a request was accepted, while the server stays in its place: its further requests change
    nothing just if the leader compares the LID of the work completion with one that it finds. -/
theorem join_idempotent_iff (haccepts : Accepts g wc_slid place) {id : UInt64} {events : List join_event}
    (hstays : AllOk join_step (Stays slid place) (join_step g (.task (.join wc_slid id slid))) events) :
    AllOk join_step (Ignores wc_slid slid) (join_step g (.task (.join wc_slid id slid))) events ↔
      AllOk join_step (Recognises wc_slid slid place) (join_step g (.task (.join wc_slid id slid))) events :=
  allOk_iff_of_assumed (I := fun g => g.lid place = slid) (fun _ _ hlid hstays _ => join_step_lid hlid hstays)
    (fun _ _ hlid hstays => ignores_iff hlid hstays) (accepted_lid haccepts id slid) hstays

/-- A group of three has accepted a request; then both entries of the resize are applied and the request is
    repeated. -/
def repeat_join (wc_slid slid : UInt16) : List join_event :=
  [.task (.apply 0), .task (.apply 48), .task (.join wc_slid 2 slid)]

theorem fourth_server_joins :
    AllOk join_step (Ignores 100 100)
      (join_step (started_group 3 admits_three) (.task (.join 100 1 100))) (repeat_join 100 100) := by
  have haccepts : Accepts (started_group 3 admits_three) 100 3 := by
    unfold Accepts
    decide
  have hstays : AllOk join_step (Stays 100 3)
      (join_step (started_group 3 admits_three) (.task (.join 100 1 100))) (repeat_join 100 100) := by
    refine ⟨⟨?_, ?_, ?_, trivial⟩, ⟨?_, ?_, ?_, trivial⟩, ⟨?_, ?_, ?_, trivial⟩, trivial⟩
    all_goals decide +kernel
  refine (join_idempotent_iff haccepts hstays).mpr
    ⟨fun _ h => ?_, fun _ h => ?_, fun _ _ _ _ => .inl rfl, trivial⟩
  · cases h
  · cases h

/-- The server sends 100 for its LID, but its messages come with LID 7: it gets a second place. -/
theorem fourth_server_joins_twice :
    Accepts (started_group 3 admits_three) 7 3 ∧
    AllOk join_step (Stays 100 3)
      (join_step (started_group 3 admits_three) (.task (.join 7 1 100))) (repeat_join 7 100) ∧
    ¬ AllOk join_step (Ignores 7 100)
      (join_step (started_group 3 admits_three) (.task (.join 7 1 100))) (repeat_join 7 100) := by
  refine ⟨by unfold Accepts; decide, ⟨⟨?_, ?_, ?_, trivial⟩, ⟨?_, ?_, ?_, trivial⟩, ⟨?_, ?_, ?_, trivial⟩,
    trivial⟩, fun h => ?_⟩
  iterate 9 decide +kernel
  · have hcid := (h.2.2.1 2 rfl).1
    revert hcid
    decide +kernel

end joining

end dare.server
