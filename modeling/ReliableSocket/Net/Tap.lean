import Mathlib.Data.List.Infix
import Mathlib.Data.List.Nodup
import Mathlib.Logic.Function.Basic
import ReliableSocket.Run
import ReliableSocket.PacketBuffer
import ReliableSocket.Proxy.Raw

open memory run packet_buffer

namespace tap

/-- What stands in the outgoing ring: packets, each under the number of its capture, and the flags of
    the drain. -/
inductive item where
  | packet (p : Nat)
  | tcp_done
  | udp_done
deriving DecidableEq, Repr

/-- One server with its guest. In the TCP ring `none` stands for the entry of `append_no_op`. `applied`
    counts the agreed entries that the server has applied; `guest` has the packets that were given to
    the guest. -/
structure host where
  leader : Bool
  no_unread_data : Bool
  outgoing : List item
  tcp : List (Option Nat)
  udp_done : Bool
  tcp_done : Bool
  applied : Nat
  guest : List Nat
deriving DecidableEq, Repr

/-- The group. `captured` has for each packet that was read from a tap device the server that read it,
    so that a packet is named by its position. `pending` are the packets that are submitted and not
    agreed on, `agreed` the RAW entries in the order of the log, `submitted` all calls of
    `leader_handle_submit_req`. -/
structure system where
  hosts : Nat → host
  captured : List Nat
  pending : List Nat
  agreed : List Nat
  submitted : List Nat

/-- What `do_action_raw` does with a packet. -/
inductive raw_action where
  | drop
  | tcp
  | other
deriving DecidableEq, Repr

/-- What happens in the group. Each `is_leader()` of a turn of `tap_send` is read anew, so the answers
    may differ: the one that chooses the source, the one before `msg_handle` and the one inside. -/
inductive Action where
  | tap_send (i : Nat) (source before inside : Bool)
  | agree (k : Nat)
  | lose (k : Nat)
  | apply (i : Nat) (action : raw_action)
  | append_no_op (i : Nat)
  | dump (i : Nat) (blocked : Bool)
  | role (i : Nat) (leader : Bool)
deriving DecidableEq, Repr

def system.set_host (s : system) (i : Nat) (h : host) : system :=
  { s with hosts := Function.update s.hosts i h }

/-- The rest of a turn of `tap_send`, once the packet is in the buffer of the device. -/
def send (s : system) (i p : Nat) (submit : Bool) : system :=
  let s := s.set_host i { s.hosts i with guest := (s.hosts i).guest ++ [p] }
  if submit then { s with pending := s.pending ++ [p], submitted := s.submitted ++ [p] } else s

/-- The outgoing ring is read and both flags of the drain are looked at. -/
def read_flag (h : host) (rest : List item) (tcp_done udp_done : Bool) : host :=
  if tcp_done && udp_done then
    { h with outgoing := rest, tcp_done := false, udp_done := false, no_unread_data := true }
  else { h with outgoing := rest, tcp_done := tcp_done, udp_done := udp_done }

/-- One turn of the loop of `tap_send`. -/
def tap_send (s : system) (i : Nat) (source before inside : Bool) : system :=
  let h := s.hosts i
  if source && h.no_unread_data then
    send { s with captured := s.captured ++ [i] } i s.captured.length (before && inside)
  else
    match h.outgoing with
    | [] => s
    | .packet p :: rest => send (s.set_host i { h with outgoing := rest }) i p (before && inside)
    | .tcp_done :: rest => s.set_host i (read_flag h rest true h.udp_done)
    | .udp_done :: rest => s.set_host i (read_flag h rest h.tcp_done true)

/-- The next agreed entry: the leader only counts it. -/
def apply (s : system) (i : Nat) (action : raw_action) : system :=
  let h := s.hosts i
  match s.agreed[h.applied]? with
  | none => s
  | some p =>
    let h := { h with applied := h.applied + 1 }
    if h.leader then s.set_host i h
    else
      match action with
      | .drop => s.set_host i h
      | .tcp => s.set_host i { h with tcp := h.tcp ++ [some p] }
      | .other => s.set_host i { h with outgoing := h.outgoing ++ [.packet p] }

/-- The entry of `append_no_op` stays in the TCP ring. -/
def dump (h : host) (blocked : Bool) : host :=
  match h.tcp with
  | [] => h
  | none :: _ => { h with outgoing := h.outgoing ++ [.tcp_done] }
  | some p :: rest => if blocked then h else { h with tcp := rest, outgoing := h.outgoing ++ [.packet p] }

def step (s : system) : Action → system
  | .tap_send i source before inside => tap_send s i source before inside
  | .agree k =>
    match s.pending[k]? with
    | none => s
    | some p => { s with pending := s.pending.eraseIdx k, agreed := s.agreed ++ [p] }
  | .lose k => { s with pending := s.pending.eraseIdx k }
  | .apply i action => apply s i action
  | .append_no_op i =>
    s.set_host i { s.hosts i with
      tcp := (s.hosts i).tcp ++ [none], outgoing := (s.hosts i).outgoing ++ [.udp_done] }
  | .dump i blocked => s.set_host i (dump (s.hosts i) blocked)
  | .role i leader => s.set_host i { s.hosts i with leader := leader }

def item.number : item → Option Nat
  | .packet p => some p
  | .tcp_done | .udp_done => none

/-- The packets on which the guest acts: those it was given and those that wait for it. -/
def host.sequence (h : host) : List Nat :=
  h.guest ++ (h.outgoing.filterMap item.number ++ h.tcp.filterMap id)

section sequence

variable (h : host) (p : Nat)

theorem sequence_guest : ({ h with guest := h.guest ++ [p] } : host).sequence.Perm (p :: h.sequence) := by
  simp only [host.sequence, List.append_assoc, List.singleton_append]
  exact List.perm_middle

theorem sequence_outgoing :
    ({ h with outgoing := h.outgoing ++ [.packet p] } : host).sequence.Perm (p :: h.sequence) := by
  have hnew : ({ h with outgoing := h.outgoing ++ [.packet p] } : host).sequence =
      (h.guest ++ h.outgoing.filterMap item.number) ++ p :: h.tcp.filterMap id := by
    simp [host.sequence, item.number]
  rw [hnew, host.sequence, ← List.append_assoc]
  exact List.perm_middle

theorem sequence_tcp :
    ({ h with tcp := h.tcp ++ [some p] } : host).sequence.Perm (p :: h.sequence) := by
  simp only [host.sequence, List.filterMap_append, ← List.append_assoc]
  exact List.perm_append_singleton _ _

/-- Taking a packet out of the outgoing ring and giving it to the guest. -/
theorem sequence_read {rest : List item} (hout : h.outgoing = .packet p :: rest) :
    ({ h with outgoing := rest, guest := h.guest ++ [p] } : host).sequence = h.sequence := by
  simp [host.sequence, hout, item.number]

theorem sequence_read_flag {rest : List item} {flag : item} (hout : h.outgoing = flag :: rest)
    (hflag : flag.number = none) (tcp_done udp_done : Bool) :
    (read_flag h rest tcp_done udp_done).sequence = h.sequence := by
  unfold read_flag
  split <;> simp [host.sequence, hout, hflag]

theorem sequence_dump (blocked : Bool) : (dump h blocked).sequence = h.sequence := by
  unfold dump
  split
  · rfl
  · simp [host.sequence, item.number]
  · rename_i p rest htcp
    split
    · rfl
    · simp [host.sequence, item.number, htcp]

end sequence

/-- No packet is submitted twice, and none reaches a guest twice. -/
def AtMostOnce (s : system) : Prop :=
  s.submitted.Nodup ∧ ∀ i, (s.hosts i).sequence.Nodup

/-- The packet at the front of the outgoing ring. -/
def host.next_packet (h : host) : Option Nat := h.outgoing.head?.bind item.number

/-- No packet from the ring is submitted, and no server acts as a follower on a packet that it has
    captured itself. -/
def ActsOnce (s : system) : Action → Prop
  | .tap_send i source before inside =>
    (source && (s.hosts i).no_unread_data) = true ∨ (s.hosts i).next_packet = none ∨
      (before && inside) = false
  | .apply i action =>
    (s.hosts i).leader = true ∨ action = .drop ∨
      (s.agreed[(s.hosts i).applied]?.bind fun p => s.captured[p]?) ≠ some i
  | .agree _ | .lose _ | .append_no_op _ | .dump _ _ | .role _ _ => True

instance (s : system) (a : Action) : Decidable (ActsOnce s a) := by
  cases a <;> unfold ActsOnce <;> infer_instance

/-- Submissions and sequences only grow. -/
structure Grows (s s' : system) : Prop where
  submitted : ∃ new, s'.submitted = s.submitted ++ new
  sequence : ∀ j, ∃ new, (s'.hosts j).sequence.Perm (new ++ (s.hosts j).sequence)

section grows

variable {s s' s'' : system}

theorem Grows.refl (s : system) : Grows s s := ⟨⟨[], by simp⟩, fun _ => ⟨[], .refl _⟩⟩

theorem Grows.trans (h₁ : Grows s s') (h₂ : Grows s' s'') : Grows s s'' := by
  obtain ⟨new₁, heq₁⟩ := h₁.submitted
  obtain ⟨new₂, heq₂⟩ := h₂.submitted
  refine ⟨⟨new₁ ++ new₂, by rw [heq₂, heq₁, List.append_assoc]⟩, fun j => ?_⟩
  obtain ⟨more₁, hperm₁⟩ := h₁.sequence j
  obtain ⟨more₂, hperm₂⟩ := h₂.sequence j
  exact ⟨more₂ ++ more₁, by rw [List.append_assoc]; exact hperm₂.trans (hperm₁.append_left more₂)⟩

theorem grows_set_host (s : system) {i : Nat} {h : host} (new : List Nat)
    (hseq : h.sequence.Perm (new ++ (s.hosts i).sequence)) : Grows s (s.set_host i h) := by
  refine ⟨⟨[], by simp [system.set_host]⟩, fun j => ?_⟩
  by_cases hj : j = i
  · subst hj
    exact ⟨new, by simpa [system.set_host] using hseq⟩
  · exact ⟨[], by simp [system.set_host, Function.update_of_ne hj]⟩

theorem AtMostOnce.of_grows (hgrows : Grows s s') (hs : AtMostOnce s') : AtMostOnce s := by
  obtain ⟨new, heq⟩ := hgrows.submitted
  refine ⟨?_, fun j => ?_⟩
  · have hnodup := hs.1
    rw [heq] at hnodup
    exact hnodup.of_append_left
  · obtain ⟨more, hperm⟩ := hgrows.sequence j
    exact (hperm.nodup_iff.mp (hs.2 j)).of_append_right

theorem grows_send (s : system) (i p : Nat) (submit : Bool) : Grows s (send s i p submit) := by
  have hguest := grows_set_host s [p] (sequence_guest (s.hosts i) p)
  unfold send
  split
  · obtain ⟨-, hseq⟩ := hguest
    exact ⟨⟨[p], rfl⟩, hseq⟩
  · exact hguest

theorem grows_read (s : system) {i p : Nat} {rest : List item} (submit : Bool)
    (hout : (s.hosts i).outgoing = .packet p :: rest) :
    Grows s (send (s.set_host i { s.hosts i with outgoing := rest }) i p submit) := by
  have hhost : ((send (s.set_host i { s.hosts i with outgoing := rest }) i p submit).hosts i).sequence =
      (s.hosts i).sequence := by
    rw [← sequence_read (s.hosts i) p hout]
    unfold send
    split <;> simp [system.set_host]
  refine ⟨⟨if submit then [p] else [], ?_⟩, fun j => ?_⟩
  · unfold send
    split <;> simp [system.set_host, *]
  · by_cases hj : j = i
    · subst hj
      exact ⟨[], by rw [hhost]; exact .refl _⟩
    · refine ⟨[], ?_⟩
      unfold send
      split <;> simp [system.set_host, Function.update_of_ne hj]

theorem step_grows (s : system) (a : Action) : Grows s (step s a) := by
  cases a with
  | tap_send i source before inside =>
    rw [step, tap_send]
    split
    · have hcapture : Grows s { s with captured := s.captured ++ [i] } :=
        ⟨⟨[], by simp⟩, fun _ => ⟨[], .refl _⟩⟩
      exact hcapture.trans (grows_send _ i _ _)
    · split
      · exact .refl s
      · rename_i p rest hout
        exact grows_read s _ hout
      · rename_i rest hout
        exact grows_set_host s [] (by rw [sequence_read_flag _ hout rfl]; exact .refl _)
      · rename_i rest hout
        exact grows_set_host s [] (by rw [sequence_read_flag _ hout rfl]; exact .refl _)
  | agree k =>
    rw [step]
    split
    · exact .refl s
    · exact ⟨⟨[], by simp⟩, fun _ => ⟨[], .refl _⟩⟩
  | lose k => exact ⟨⟨[], by simp [step]⟩, fun _ => ⟨[], .refl _⟩⟩
  | apply i action =>
    rw [step, apply]
    dsimp only
    split
    · exact .refl s
    · rename_i p _
      split
      · exact grows_set_host s [] (.refl _)
      · split
        · exact grows_set_host s [] (.refl _)
        · exact grows_set_host s [p] (sequence_tcp _ p)
        · exact grows_set_host s [p] (sequence_outgoing _ p)
  | append_no_op i =>
    exact grows_set_host s [] (by simp [host.sequence, List.filterMap_cons, item.number])
  | dump i blocked => exact grows_set_host s [] (by rw [sequence_dump]; exact .refl _)
  | role i leader => exact grows_set_host s [] (.refl _)

end grows

/-- What is known about the packets as long as none is submitted twice. -/
structure Inv (s : system) : Prop where
  submitted_nodup : s.submitted.Nodup
  submitted_lt : ∀ p ∈ s.submitted, p < s.captured.length
  queued_nodup : (s.pending ++ s.agreed).Nodup
  queued_submitted : ∀ p ∈ s.pending ++ s.agreed, p ∈ s.submitted
  sequence_nodup : ∀ i, (s.hosts i).sequence.Nodup
  sequence_from : ∀ i, ∀ p ∈ (s.hosts i).sequence,
    s.captured[p]? = some i ∨ p ∈ s.agreed.take (s.hosts i).applied
  buffered : ∀ i p, .packet p ∈ (s.hosts i).outgoing ∨ some p ∈ (s.hosts i).tcp → p ∈ s.agreed
  own : ∀ p i, s.captured[p]? = some i → p ∈ (s.hosts i).sequence

section inv

variable {s : system}

/-- Changing one server, with its sequence up to order and what it has buffered known. -/
theorem Inv.set_host (hs : Inv s) {i : Nat} {h : host} (new : List Nat)
    (hseq : h.sequence.Perm (new ++ (s.hosts i).sequence)) (hnodup : h.sequence.Nodup)
    (hfrom : ∀ p ∈ h.sequence, s.captured[p]? = some i ∨ p ∈ s.agreed.take h.applied)
    (hbuffered : ∀ p, .packet p ∈ h.outgoing ∨ some p ∈ h.tcp → p ∈ s.agreed) :
    Inv (s.set_host i h) where
  submitted_nodup := hs.submitted_nodup
  submitted_lt := hs.submitted_lt
  queued_nodup := hs.queued_nodup
  queued_submitted := hs.queued_submitted
  sequence_nodup j := by
    by_cases hj : j = i
    · subst hj
      simpa [system.set_host] using hnodup
    · simpa [system.set_host, Function.update_of_ne hj] using hs.sequence_nodup j
  sequence_from j := by
    by_cases hj : j = i
    · subst hj
      simpa [system.set_host] using hfrom
    · simpa [system.set_host, Function.update_of_ne hj] using hs.sequence_from j
  buffered j := by
    by_cases hj : j = i
    · subst hj
      simpa [system.set_host] using hbuffered
    · simpa [system.set_host, Function.update_of_ne hj] using hs.buffered j
  own p j hp := by
    by_cases hj : j = i
    · subst hj
      have hmem := hseq.mem_iff.mpr (List.mem_append_right new (hs.own p j hp))
      simpa [system.set_host] using hmem
    · simpa [system.set_host, Function.update_of_ne hj] using hs.own p j hp

/-- A change that leaves the sequence of the server alone. -/
theorem Inv.same_sequence (hs : Inv s) {i : Nat} {h : host} (hseq : h.sequence = (s.hosts i).sequence)
    (happlied : (s.hosts i).applied ≤ h.applied)
    (hbuffered : ∀ p, .packet p ∈ h.outgoing ∨ some p ∈ h.tcp →
      .packet p ∈ (s.hosts i).outgoing ∨ some p ∈ (s.hosts i).tcp) :
    Inv (s.set_host i h) := by
  refine hs.set_host [] (by rw [hseq]; exact .refl _) (by rw [hseq]; exact hs.sequence_nodup i) ?_
    fun p hp => hs.buffered i p (hbuffered p hp)
  rw [hseq]
  intro p hp
  obtain hown | happ := hs.sequence_from i p hp
  · exact .inl hown
  · exact .inr ((List.take_prefix_take_left happlied).subset happ)

/-- A packet that is not in the sequence of the server yet. -/
theorem Inv.new_packet (hs : Inv s) {i p : Nat} {h : host}
    (hseq : h.sequence.Perm (p :: (s.hosts i).sequence)) (hp : p ∉ (s.hosts i).sequence)
    (happlied : (s.hosts i).applied ≤ h.applied)
    (hfrom : s.captured[p]? = some i ∨ p ∈ s.agreed.take h.applied)
    (hbuffered : ∀ q, .packet q ∈ h.outgoing ∨ some q ∈ h.tcp → q ∈ s.agreed) :
    Inv (s.set_host i h) := by
  refine hs.set_host [p] hseq ?_ (fun q hq => ?_) hbuffered
  · exact hseq.nodup_iff.mpr (List.nodup_cons.mpr ⟨hp, hs.sequence_nodup i⟩)
  · obtain rfl | hq := List.mem_cons.mp (hseq.mem_iff.mp hq)
    · exact hfrom
    · obtain hown | happ := hs.sequence_from i q hq
      · exact .inl hown
      · exact .inr ((List.take_prefix_take_left happlied).subset happ)

/-- The packet of a new capture. -/
theorem Inv.fresh (hs : Inv s) (i : Nat) : s.captured.length ∉ (s.hosts i).sequence := by
  intro hmem
  obtain hown | happ := hs.sequence_from i _ hmem
  · rw [List.getElem?_eq_none (Nat.le_refl _)] at hown
    cases hown
  · have hagreed := List.mem_of_mem_take happ
    have hlt := hs.submitted_lt _ (hs.queued_submitted _ (List.mem_append_right _ hagreed))
    exact Nat.lt_irrefl _ hlt

/-- A new packet is read from the tap device and given to the guest. -/
theorem Inv.capture (hs : Inv s) (i : Nat) :
    Inv { s with
      captured := s.captured ++ [i]
      hosts := Function.update s.hosts i
        { s.hosts i with guest := (s.hosts i).guest ++ [s.captured.length] } } := by
  have hfresh := hs.fresh i
  have hold : ∀ p j : Nat, s.captured[p]? = some j → (s.captured ++ [i])[p]? = some j := by
    intro p j hp
    rw [List.getElem?_append_left (List.getElem?_eq_some_iff.mp hp).1]
    exact hp
  set p := s.captured.length with hp
  have hseq := sequence_guest (s.hosts i) p
  refine ⟨hs.submitted_nodup, fun q hq => ?_, hs.queued_nodup, hs.queued_submitted, fun j => ?_,
    fun j => ?_, fun j => ?_, fun q j hq => ?_⟩
  · rw [List.length_append]
    exact Nat.lt_succ_of_lt (hs.submitted_lt q hq)
  · by_cases hj : j = i
    · subst hj
      simpa using hseq.nodup_iff.mpr (List.nodup_cons.mpr ⟨hfresh, hs.sequence_nodup j⟩)
    · simpa [Function.update_of_ne hj] using hs.sequence_nodup j
  · by_cases hj : j = i
    · subst hj
      simp only [Function.update_self]
      intro q hq
      obtain rfl | hq := List.mem_cons.mp (hseq.mem_iff.mp hq)
      · exact .inl List.getElem?_concat_length
      · exact (hs.sequence_from j q hq).imp (hold q j) fun happ => happ
    · simp only [Function.update_of_ne hj]
      exact fun q hq => (hs.sequence_from j q hq).imp (hold q j) fun happ => happ
  · by_cases hj : j = i
    · subst hj
      simpa using hs.buffered j
    · simpa [Function.update_of_ne hj] using hs.buffered j
  · obtain hlt | hge := Nat.lt_or_ge q p
    · rw [List.getElem?_append_left hlt] at hq
      have hmem := hs.own q j hq
      by_cases hj : j = i
      · subst hj
        simpa using hseq.mem_iff.mpr (List.mem_cons_of_mem p hmem)
      · simpa [Function.update_of_ne hj] using hmem
    · have hlt := (List.getElem?_eq_some_iff.mp hq).1
      rw [List.length_append, List.length_singleton] at hlt
      obtain rfl : q = p := by omega
      rw [List.getElem?_concat_length] at hq
      obtain rfl := Option.some.inj hq
      simpa using hseq.mem_iff.mpr List.mem_cons_self

theorem Inv.submit (hs : Inv s) {p : Nat} (hlt : p < s.captured.length) (hnew : p ∉ s.submitted) :
    Inv { s with pending := s.pending ++ [p], submitted := s.submitted ++ [p] } := by
  have hperm : ((s.pending ++ [p]) ++ s.agreed).Perm (p :: (s.pending ++ s.agreed)) := by
    rw [List.append_assoc, List.singleton_append]
    exact List.perm_middle
  have hsubmitted : (s.submitted ++ [p]).Perm (p :: s.submitted) := List.perm_append_singleton _ _
  have hqueued : p ∉ s.pending ++ s.agreed := fun hmem => hnew (hs.queued_submitted p hmem)
  refine ⟨?_, fun q hq => ?_, ?_, fun q hq => ?_, hs.sequence_nodup, hs.sequence_from, hs.buffered, hs.own⟩
  · exact hsubmitted.nodup_iff.mpr (List.nodup_cons.mpr ⟨hnew, hs.submitted_nodup⟩)
  · obtain rfl | hq := List.mem_cons.mp (hsubmitted.mem_iff.mp hq)
    · exact hlt
    · exact hs.submitted_lt q hq
  · exact hperm.nodup_iff.mpr (List.nodup_cons.mpr ⟨hqueued, hs.queued_nodup⟩)
  · refine hsubmitted.mem_iff.mpr ?_
    obtain rfl | hq := List.mem_cons.mp (hperm.mem_iff.mp hq)
    · exact List.mem_cons_self
    · exact List.mem_cons_of_mem p (hs.queued_submitted q hq)

theorem Inv.send_new (hs : Inv s) (i : Nat) (submit : Bool) :
    Inv (send { s with captured := s.captured ++ [i] } i s.captured.length submit) := by
  have hcapture := hs.capture i
  cases submit with
  | true =>
    refine hcapture.submit (by simp) fun hmem => ?_
    exact Nat.lt_irrefl _ (hs.submitted_lt _ hmem)
  | false => exact hcapture

/-- The turn for a packet from the outgoing ring, which is not submitted. -/
theorem Inv.send_read (hs : Inv s) {i p : Nat} {rest : List item}
    (hout : (s.hosts i).outgoing = .packet p :: rest) :
    Inv (send (s.set_host i { s.hosts i with outgoing := rest }) i p false) := by
  have hread : Inv (s.set_host i { s.hosts i with
      outgoing := rest, guest := (s.hosts i).guest ++ [p] }) :=
    hs.same_sequence (sequence_read (s.hosts i) p hout) (Nat.le_refl _) fun q hq =>
      hq.imp (fun h => by rw [hout]; exact List.mem_cons_of_mem _ h) fun h => h
  simpa [send, system.set_host] using hread

theorem Inv.read_flag (hs : Inv s) {i : Nat} {rest : List item} {flag : item}
    (hout : (s.hosts i).outgoing = flag :: rest) (hflag : flag.number = none) (tcp_done udp_done : Bool) :
    Inv (s.set_host i (read_flag (s.hosts i) rest tcp_done udp_done)) := by
  refine hs.same_sequence (sequence_read_flag _ hout hflag _ _) ?_ fun q hq => ?_
  · unfold tap.read_flag
    split <;> exact Nat.le_refl _
  · have hmem : .packet q ∈ rest ∨ some q ∈ (s.hosts i).tcp := by
      unfold tap.read_flag at hq
      split at hq <;> exact hq
    exact hmem.imp (fun h => by rw [hout]; exact List.mem_cons_of_mem _ h) fun h => h

theorem Inv.dump (hs : Inv s) (i : Nat) (blocked : Bool) :
    Inv (s.set_host i (dump (s.hosts i) blocked)) := by
  refine hs.same_sequence (sequence_dump _ _) ?_ fun q hq => ?_
  · unfold tap.dump
    split
    · exact Nat.le_refl _
    · exact Nat.le_refl _
    · split <;> exact Nat.le_refl _
  · unfold tap.dump at hq
    split at hq
    · exact hq
    · simpa using hq
    · rename_i p rest htcp
      split at hq
      · exact hq
      · simp only [List.mem_append, List.mem_singleton, item.packet.injEq] at hq
        rw [htcp]
        obtain (hout | rfl) | hrest := hq
        · exact .inl hout
        · exact .inr List.mem_cons_self
        · exact .inr (List.mem_cons_of_mem _ hrest)

theorem Inv.agree (hs : Inv s) {k p : Nat} (hk : s.pending[k]? = some p) :
    Inv { s with pending := s.pending.eraseIdx k, agreed := s.agreed ++ [p] } := by
  obtain ⟨hlt, hget⟩ := List.getElem?_eq_some_iff.mp hk
  have hperm : (s.pending.eraseIdx k ++ (s.agreed ++ [p])).Perm (s.pending ++ s.agreed) := by
    have hfirst : s.pending.Perm (p :: s.pending.eraseIdx k) := by
      rw [← hget]
      exact (List.perm_cons_erase (List.getElem_mem hlt)).trans
        ((List.erase_getElem hlt).cons _)
    rw [← List.append_assoc]
    exact (List.perm_append_singleton _ _).trans (hfirst.append_right s.agreed).symm
  refine ⟨hs.submitted_nodup, hs.submitted_lt, hperm.nodup_iff.mpr hs.queued_nodup,
    fun q hq => hs.queued_submitted q (hperm.mem_iff.mp hq), hs.sequence_nodup, fun j q hq => ?_,
    fun j q hq => List.mem_append_left _ (hs.buffered j q hq), hs.own⟩
  obtain hown | happ := hs.sequence_from j q hq
  · exact .inl hown
  · exact .inr ((List.IsPrefix.take (List.prefix_append s.agreed [p]) _).subset happ)

theorem Inv.lose (hs : Inv s) (k : Nat) : Inv { s with pending := s.pending.eraseIdx k } := by
  have hsub : (s.pending.eraseIdx k ++ s.agreed).Sublist (s.pending ++ s.agreed) :=
    (List.eraseIdx_sublist _ _).append_right _
  exact ⟨hs.submitted_nodup, hs.submitted_lt, hs.queued_nodup.sublist hsub,
    fun q hq => hs.queued_submitted q (hsub.subset hq), hs.sequence_nodup, hs.sequence_from, hs.buffered,
    hs.own⟩

/-- The next agreed packet is new to a server that has not captured it. -/
theorem Inv.next_agreed (hs : Inv s) {i p : Nat} (hp : s.agreed[(s.hosts i).applied]? = some p)
    (hother : s.captured[p]? ≠ some i) :
    p ∉ (s.hosts i).sequence ∧ p ∈ s.agreed.take ((s.hosts i).applied + 1) := by
  have htake : s.agreed.take ((s.hosts i).applied + 1) = s.agreed.take (s.hosts i).applied ++ [p] := by
    rw [List.take_add_one, hp]
    rfl
  refine ⟨fun hmem => ?_, by rw [htake]; exact List.mem_append_right _ (List.mem_singleton_self p)⟩
  obtain hown | happ := hs.sequence_from i p hmem
  · exact hother hown
  · have hnodup := (hs.queued_nodup.of_append_right).sublist
      (List.take_sublist ((s.hosts i).applied + 1) s.agreed)
    rw [htake] at hnodup
    exact (List.nodup_append.mp hnodup).2.2 p happ p (List.mem_singleton_self p) rfl

theorem Inv.apply (hs : Inv s) {i : Nat} {action : raw_action} (hok : ActsOnce s (.apply i action)) :
    Inv (apply s i action) := by
  unfold tap.apply
  dsimp only
  split
  · exact hs
  · rename_i p hp
    have hagreed : p ∈ s.agreed := List.mem_of_getElem? hp
    have hsilent : Inv (s.set_host i { s.hosts i with applied := (s.hosts i).applied + 1 }) :=
      hs.same_sequence rfl (Nat.le_succ _) fun _ hq => hq
    split
    · exact hsilent
    · rename_i hfollower
      cases action with
      | drop => exact hsilent
      | tcp =>
        have hother : s.captured[p]? ≠ some i := by
          simpa [ActsOnce, hp, hfollower] using hok
        obtain ⟨hnew, htake⟩ := hs.next_agreed hp hother
        refine hs.new_packet (sequence_tcp (s.hosts i) p) hnew (Nat.le_succ _) (.inr htake) fun q hq => ?_
        simp only [List.mem_append, List.mem_singleton, Option.some.injEq] at hq
        obtain hq | hq | rfl := hq
        · exact hs.buffered i q (.inl hq)
        · exact hs.buffered i q (.inr hq)
        · exact hagreed
      | other =>
        have hother : s.captured[p]? ≠ some i := by
          simpa [ActsOnce, hp, hfollower] using hok
        obtain ⟨hnew, htake⟩ := hs.next_agreed hp hother
        refine hs.new_packet (sequence_outgoing (s.hosts i) p) hnew (Nat.le_succ _) (.inr htake)
          fun q hq => ?_
        simp only [List.mem_append, List.mem_singleton, item.packet.injEq] at hq
        obtain (hq | rfl) | hq := hq
        · exact hs.buffered i q (.inl hq)
        · exact hagreed
        · exact hs.buffered i q (.inr hq)

theorem Inv.tap_send (hs : Inv s) {i : Nat} {source before inside : Bool}
    (hok : ActsOnce s (.tap_send i source before inside)) :
    Inv (tap_send s i source before inside) := by
  unfold tap.tap_send
  dsimp only
  split
  · exact hs.send_new i _
  · rename_i hring
    split
    · exact hs
    · rename_i p rest hout
      have hnot : (before && inside) = false := by
        have hnext : (s.hosts i).next_packet = some p := by
          simp [host.next_packet, hout, item.number]
        obtain h | h | h := hok
        · exact absurd h hring
        · rw [hnext] at h
          cases h
        · exact h
      rw [hnot]
      exact hs.send_read hout
    · rename_i rest hout
      exact hs.read_flag hout rfl _ _
    · rename_i rest hout
      exact hs.read_flag hout rfl _ _

theorem Inv.step (hs : Inv s) {a : Action} (hok : ActsOnce s a) : Inv (step s a) := by
  cases a with
  | tap_send i source before inside => exact hs.tap_send hok
  | agree k =>
    rw [tap.step]
    split
    · exact hs
    · rename_i p hk
      exact hs.agree hk
  | lose k => exact hs.lose k
  | apply i action => exact hs.apply hok
  | append_no_op i =>
    refine hs.same_sequence (by simp [host.sequence, List.filterMap_cons, item.number]) (Nat.le_refl _) ?_
    intro q hq
    simpa using hq
  | dump i blocked => exact hs.dump i blocked
  | role i leader => exact hs.same_sequence rfl (Nat.le_refl _) fun _ hq => hq

/-- A packet from the ring has been submitted before. -/
theorem Inv.tap_send_leaves (hs : Inv s) {i : Nat} {source before inside : Bool}
    (hnext : AtMostOnce (tap.tap_send s i source before inside)) :
    ActsOnce s (.tap_send i source before inside) := by
  by_contra hnot
  simp only [ActsOnce, not_or, Bool.not_eq_true, Bool.not_eq_false] at hnot
  obtain ⟨hring, hpacket, hsubmit⟩ := hnot
  obtain ⟨p, rest, hout⟩ : ∃ p rest, (s.hosts i).outgoing = .packet p :: rest := by
    cases hlist : (s.hosts i).outgoing with
    | nil => simp [host.next_packet, hlist] at hpacket
    | cons f rest =>
      cases f with
      | packet p => exact ⟨p, rest, rfl⟩
      | tcp_done => simp [host.next_packet, hlist, item.number] at hpacket
      | udp_done => simp [host.next_packet, hlist, item.number] at hpacket
  have hmem : p ∈ s.submitted := by
    have hagreed := hs.buffered i p (.inl (by rw [hout]; exact List.mem_cons_self))
    exact hs.queued_submitted p (List.mem_append_right _ hagreed)
  have hnodup := hnext.1
  simp only [tap.tap_send, hring, Bool.false_eq_true, if_false, hout, hsubmit, send, if_true,
    system.set_host] at hnodup
  exact (List.nodup_append.mp hnodup).2.2 p hmem p (List.mem_singleton_self p) rfl

/-- A packet that this server has captured is in its sequence already. -/
theorem Inv.apply_leaves (hs : Inv s) {i : Nat} {action : raw_action}
    (hnext : AtMostOnce (tap.apply s i action)) : ActsOnce s (.apply i action) := by
  by_contra hnot
  simp only [ActsOnce, not_or, Bool.not_eq_true, ne_eq, not_not] at hnot
  obtain ⟨hfollower, hacts, hown⟩ := hnot
  obtain ⟨p, hp, hcaptured⟩ := Option.bind_eq_some_iff.mp hown
  have hmem := hs.own p i hcaptured
  have hnodup := hnext.2 i
  cases action with
  | drop => exact hacts rfl
  | tcp =>
    simp only [tap.apply, hp, hfollower, Bool.false_eq_true, if_false, system.set_host,
      Function.update_self] at hnodup
    exact (List.nodup_cons.mp ((sequence_tcp (s.hosts i) p).nodup_iff.mp hnodup)).1 hmem
  | other =>
    simp only [tap.apply, hp, hfollower, Bool.false_eq_true, if_false, system.set_host,
      Function.update_self] at hnodup
    exact (List.nodup_cons.mp ((sequence_outgoing (s.hosts i) p).nodup_iff.mp hnodup)).1 hmem

theorem Inv.leaves (hs : Inv s) {a : Action} (hnext : AtMostOnce (tap.step s a)) : ActsOnce s a := by
  cases a with
  | tap_send i source before inside => exact hs.tap_send_leaves hnext
  | apply i action => exact hs.apply_leaves hnext
  | _ => trivial

end inv

section rings

variable (packets : Nat → tcp_packet)

/-- What an item is in the ring, given the packets. -/
def item.to_frame : item → frame
  | .packet p => .other (packets p).data
  | .tcp_done => .tcp_done
  | .udp_done => .udp_done

/-- What stands in the TCP ring. -/
def host.tcp_bytes (h : host) : List UInt8 :=
  (h.tcp.map fun x => x.elim no_op.bytes fun p => (packets p).bytes).flatten

/-- The rings of a server hold what this model says. -/
def Rings (pb : packet_buffer_t) (h : host) : Prop :=
  Holds pb (h.tcp_bytes packets) (h.outgoing.map (item.to_frame packets))

/-- What `do_action_raw` does, in this model: a frame whose ISN is saved is dropped too. -/
def action_of : proxy.raw_result → raw_action
  | .save_isn _ _ => .drop
  | .drop => .drop
  | .write_to_tcp_buffer _ _ => .tcp
  | .write_to_packet_buffer => .other

variable {packets}

/-- Reading the ring yields the packet that this model takes from the front, and leaves the rest. -/
theorem Rings.read {pb : packet_buffer_t} {h : host} {p : Nat} {rest : List item} (hrings : Rings packets pb h)
    (hout : h.outgoing = .packet p :: rest)
    (hfilled : ¬ to_int (ringbuf.ringbuf_bytes_used pb.outgoing_buffer) ≤ 0) :
    (packet_buffer_to_buffer pb).2.1 = (packets p).data ∧
      Rings packets (packet_buffer_to_buffer pb).2.2 { h with outgoing := rest } := by
  rw [Rings, hout, List.map_cons] at hrings
  obtain ⟨outgoing, hread, hrest⟩ := hrings.read_frame hfilled
  rw [hread]
  exact ⟨rfl, hrest _ _⟩

/-- A follower that applies the entry of a packet calls `do_action_raw` with its frame: the rings then hold
    what this model puts behind the others. -/
theorem Rings.do_action_raw {s : system} {i p : Nat} {h : proxy.host_t} {guest_vm_ip : UInt32} {data : Mem}
    {size : Nat} {pad_0 pad_1 : UInt16} (hrings : Rings packets h.pb (s.hosts i))
    (hfollower : (s.hosts i).leader = false) (hagreed : s.agreed[(s.hosts i).applied]? = some p)
    (hdata : load data 0 size = (packets p).data) (hlen : PacketLen (packets p).data)
    (htcp : ∀ con ack, proxy.raw_action guest_vm_ip data size pad_0 pad_1 = .write_to_tcp_buffer con ack →
      con = (packets p).con_id ∧ ack = (packets p).ack)
    (hroom : 28 + (packets p).data.length ≤ ringbuf.ringbuf_bytes_free h.pb.tcp_buffer)
    (hroom' : 8 + (packets p).data.length ≤ ringbuf.ringbuf_bytes_free h.pb.outgoing_buffer) :
    Rings packets (proxy.do_action_raw guest_vm_ip h data size pad_0 pad_1).pb
      ((apply s i (action_of (proxy.raw_action guest_vm_ip data size pad_0 pad_1))).hosts i) := by
  rw [proxy.do_action_raw, apply, hagreed]
  simp only [hfollower, Bool.false_eq_true, if_false]
  cases haction : proxy.raw_action guest_vm_ip data size pad_0 pad_1 with
  | save_isn isn con =>
    simp only [action_of, system.set_host, Function.update_self]
    exact hrings
  | drop =>
    simp only [action_of, system.set_host, Function.update_self]
    exact hrings
  | write_to_tcp_buffer con ack =>
    obtain ⟨rfl, rfl⟩ := htcp con ack haction
    simp only [action_of, system.set_host, Function.update_self, hdata]
    have hwritten := (hrings.write_to_tcp_buffer hroom).1
    simpa [Rings, host.tcp_bytes] using hwritten
  | write_to_packet_buffer =>
    simp only [action_of, system.set_host, Function.update_self, hdata]
    have hwritten := hrings.write_to_packet_buffer hlen hroom'
    simpa [Rings, host.tcp_bytes, item.to_frame] using hwritten

end rings

/-- Nothing was captured yet and all rings are empty. -/
structure Started (s : system) : Prop where
  captured : s.captured = []
  pending : s.pending = []
  agreed : s.agreed = []
  submitted : s.submitted = []
  hosts : ∀ i, (s.hosts i).outgoing = [] ∧ (s.hosts i).tcp = [] ∧ (s.hosts i).guest = []

theorem Started.inv {s : system} (hs : Started s) : Inv s := by
  have hempty : ∀ i, (s.hosts i).sequence = [] := by
    intro i
    obtain ⟨hout, htcp, hguest⟩ := hs.hosts i
    simp [host.sequence, hout, htcp, hguest]
  refine ⟨by simp [hs.submitted], by simp [hs.submitted], by simp [hs.pending, hs.agreed],
    by simp [hs.pending, hs.agreed], fun i => by simp [hempty i], fun i => by simp [hempty i],
    fun i p hp => ?_, by simp [hs.captured]⟩
  obtain ⟨hout, htcp, -⟩ := hs.hosts i
  simp [hout, htcp] at hp

/-- In every run of the group, with any number of packets and of changes of the leader: no packet is
    submitted to consensus twice and no guest acts on a packet twice, if and only if no packet from a
    packet buffer is read while both later checks find the server leading, and no server acts as a
    follower on a packet of its own tap device. -/
theorem packets_at_most_once {s : system} (hs : Started s) (actions : List Action) :
    ((steps step s actions).submitted.Nodup ∧ ∀ i, ((steps step s actions).hosts i).sequence.Nodup) ↔
      AllOk step ActsOnce s actions :=
  final_iff_allOk (I := Inv) (P := AtMostOnce) (fun _ _ h => h.step) (fun _ _ h => h.leaves)
    (fun s a => AtMostOnce.of_grows (step_grows s a)) (fun _ h => ⟨h.submitted_nodup, h.sequence_nodup⟩)
    hs.inv actions

/-- Server 0 leads and has drained its buffers; the others follow. -/
def group : system where
  hosts i := ⟨decide (i = 0), decide (i = 0), [], [], false, false, 0, []⟩
  captured := []
  pending := []
  agreed := []
  submitted := []

theorem group_started : Started group := ⟨rfl, rfl, rfl, rfl, fun _ => ⟨rfl, rfl, rfl⟩⟩

/-- Server 0 captures two packets, and server 1 gives both to its guest before it takes over. It then
    captures a third one, on which the other servers act. -/
def drained_failover : List Action :=
  [.tap_send 0 true true true, .tap_send 0 true true true, .agree 0, .agree 0, .apply 0 .other,
    .apply 0 .other, .apply 1 .tcp, .apply 1 .other, .apply 2 .other, .apply 2 .other, .dump 1 false,
    .tap_send 1 false false false, .tap_send 1 false false false, .role 0 false, .role 1 true,
    .append_no_op 1, .dump 1 false, .tap_send 1 true true true, .tap_send 1 true true true,
    .tap_send 1 true true true, .agree 0, .apply 0 .other, .apply 2 .other]

theorem packets_once_across_failover :
    (steps step group drained_failover).captured = [0, 0, 1] ∧
      (steps step group drained_failover).submitted = [0, 1, 2] ∧
      ((steps step group drained_failover).hosts 0).sequence = [0, 1, 2] ∧
      ((steps step group drained_failover).hosts 1).guest = [1, 0, 2] ∧
      (steps step group drained_failover).submitted.Nodup ∧
      ∀ i, ((steps step group drained_failover).hosts i).sequence.Nodup :=
  ⟨by decide +kernel, by decide +kernel, by decide +kernel, by decide +kernel,
    (packets_at_most_once group_started drained_failover).mpr (by decide +kernel)⟩

/-- Server 1 takes over while the agreed packet is still in its packet buffer: `tap_send` reads it,
    submits it again, and server 2 acts on it twice. -/
theorem failover_submits_again :
    let s := steps step group [.tap_send 0 true true true, .agree 0, .apply 1 .other, .apply 2 .other,
      .role 0 false, .role 1 true, .append_no_op 1, .tap_send 1 true true true, .agree 0, .apply 2 .other]
    s.captured = [0] ∧ s.submitted = [0, 0] ∧ s.agreed = [0, 0] ∧ (s.hosts 2).sequence = [0, 0] := by
  decide +kernel

end tap
