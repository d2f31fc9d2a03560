import ReliableSocket.PacketBuffer

open memory ringbuf run

namespace packet_buffer

/-- The packet buffer and the packets that it has returned to the guest. -/
structure State where
  pb : packet_buffer_t
  returned : List (List UInt8)

/-- The calls on the packet buffer, each under its locks, with the answer that `check_block` gives at
    the time of a dump. -/
inductive Action where
  | write_to_tcp_buffer (p : tcp_packet)
  | write_to_packet_buffer (data : List UInt8)
  | dump_tcp_buffer (check_block : UInt32 → con_id_type → Bool)
  | packet_buffer_to_buffer

def step (s : State) : Action → State
  | .write_to_tcp_buffer p => { s with pb := write_to_tcp_buffer s.pb p.con_id p.ack p.data }
  | .write_to_packet_buffer data => { s with pb := write_to_packet_buffer s.pb data }
  | .dump_tcp_buffer check_block => { s with pb := (dump_tcp_buffer s.pb check_block).2 }
  | .packet_buffer_to_buffer =>
    let r := packet_buffer_to_buffer s.pb
    { pb := r.2.2, returned := if r.1 > 0 then s.returned ++ [r.2.1] else s.returned }

/-- The number of bytes that a dump puts into the outgoing ring. -/
def dump_bytes (s : packet_buffer_t) (check_block : UInt32 → con_id_type → Bool) : Nat :=
  if ringbuf_bytes_used s.tcp_buffer = 0 then 0
  else
    let con := con_id_type.read s.tcp_buffer.buf s.tcp_buffer.tail
    if is_no_op con then 8
    else if check_block (loadU32 s.tcp_buffer.buf (s.tcp_buffer.tail + 16)) con then 0
    else 8 + leValue (load s.tcp_buffer.buf (s.tcp_buffer.tail + 20) 8)

/-- Packets have the lengths of network packets and no ring exceeds its capacity. The header of the
    record that is dumped, 28 bytes, does not go past the end of the ring. -/
def Fits (s : State) : Action → Prop
  | .write_to_tcp_buffer p =>
    PacketLen p.data ∧ 28 + p.data.length ≤ ringbuf_bytes_free s.pb.tcp_buffer
  | .write_to_packet_buffer data =>
    PacketLen data ∧ 8 + data.length ≤ ringbuf_bytes_free s.pb.outgoing_buffer
  | .dump_tcp_buffer check_block =>
    dump_bytes s.pb check_block ≤ ringbuf_bytes_free s.pb.outgoing_buffer ∧
      (ringbuf_bytes_used s.pb.tcp_buffer ≠ 0 → s.pb.tcp_buffer.tail + 28 ≤ s.pb.tcp_buffer.size)
  | .packet_buffer_to_buffer => True

def start (outgoing tcp : Mem) : State := ⟨init_packet_buffer outgoing tcp, []⟩

/-- The packets written to the TCP ring, in order. -/
def tcp_writes (actions : List Action) : List tcp_packet :=
  actions.filterMap fun a => match a with
    | .write_to_tcp_buffer p => some p
    | _ => none

/-- The packets written to the outgoing ring directly, in order. -/
def packet_writes (actions : List Action) : List (List UInt8) :=
  actions.filterMap fun a => match a with
    | .write_to_packet_buffer data => some data
    | _ => none

/-- After the actions `done`: what the rings hold, and which frames the returned packets were. -/
structure Tracks (s₀ : State) (done : List Action) (s : State) (tcps : List tcp_packet)
    (out returned : List frame) : Prop where
  reached : s = steps step s₀ done
  rings : Represents s.pb tcps out
  packets : returned.map frame.packet = s.returned.map some
  tcp_order : tcp_writes done = (returned ++ out).filterMap frame.to_tcp ++ tcps
  other_order : packet_writes done = (returned ++ out).filterMap frame.to_other
  -- A TCP packet at place `k` passed the check when at most `k` packets were returned.
  checked : ∀ k p, (returned ++ out.filter fun f => f.packet.isSome)[k]? = some (.tcp p) →
    ∃ i check_block, done[i]? = some (.dump_tcp_buffer check_block) ∧
      check_block p.ack p.con_id = false ∧ (steps step s₀ (done.take i)).returned.length ≤ k

section tracks

variable {s₀ s : State} {done : List Action} {tcps : List tcp_packet} {out returned : List frame}

theorem tracks_start (s₀ : State) (h₀ : Represents s₀.pb [] []) (hreturned : s₀.returned = []) :
    Tracks s₀ [] s₀ [] [] [] :=
  ⟨rfl, h₀, by simp [hreturned], rfl, rfl, by simp⟩

/-- A check that was made earlier in the run is one of the longer run. -/
theorem Tracks.checked_concat (ht : Tracks s₀ done s tcps out returned) (a : Action) {k : Nat}
    {p : tcp_packet} (hk : (returned ++ out.filter fun f => f.packet.isSome)[k]? = some (.tcp p)) :
    ∃ i check_block, (done ++ [a])[i]? = some (.dump_tcp_buffer check_block) ∧
      check_block p.ack p.con_id = false ∧
      (steps step s₀ ((done ++ [a]).take i)).returned.length ≤ k := by
  obtain ⟨i, check_block, hi, hanswer, hcount⟩ := ht.checked k p hk
  have hlt : i < done.length := by
    by_contra hge
    rw [List.getElem?_eq_none (by omega)] at hi
    cases hi
  refine ⟨i, check_block, ?_, hanswer, ?_⟩
  · rw [List.getElem?_append_left hlt, hi]
  · rw [List.take_append_of_le_length (by omega)]
    exact hcount

theorem tcp_writes_concat (done : List Action) (a : Action) :
    tcp_writes (done ++ [a]) = tcp_writes done ++ tcp_writes [a] := List.filterMap_append

theorem packet_writes_concat (done : List Action) (a : Action) :
    packet_writes (done ++ [a]) = packet_writes done ++ packet_writes [a] := List.filterMap_append

/-- A step that neither returns a packet nor changes the order of the packets. -/
theorem Tracks.rest (ht : Tracks s₀ done s tcps out returned) {a : Action}
    (hreturned : (step s a).returned = s.returned) (htcp : tcp_writes [a] = [])
    (hother : packet_writes [a] = []) {out' : List frame} (hrings : Represents (step s a).pb tcps out')
    (hto_tcp : out'.filterMap frame.to_tcp = out.filterMap frame.to_tcp)
    (hto_other : out'.filterMap frame.to_other = out.filterMap frame.to_other)
    (hpackets : (out'.filter fun f => f.packet.isSome) = out.filter fun f => f.packet.isSome) :
    Tracks s₀ (done ++ [a]) (step s a) tcps out' returned where
  reached := by rw [steps_concat, ← ht.reached]
  rings := hrings
  packets := by rw [hreturned, ht.packets]
  tcp_order := by
    simp only [tcp_writes_concat, htcp, ht.tcp_order, List.filterMap_append, hto_tcp, List.append_nil]
  other_order := by
    simp only [packet_writes_concat, hother, ht.other_order, List.filterMap_append, hto_other,
      List.append_nil]
  checked k p hk := by
    rw [hpackets] at hk
    exact ht.checked_concat a hk

theorem Tracks.write_tcp (ht : Tracks s₀ done s tcps out returned) {p : tcp_packet}
    (hfits : Fits s (.write_to_tcp_buffer p)) :
    Tracks s₀ (done ++ [.write_to_tcp_buffer p]) (step s (.write_to_tcp_buffer p)) (tcps ++ [p]) out
      returned where
  reached := by rw [steps_concat, ← ht.reached]
  rings := ht.rings.write_to_tcp_buffer hfits.1 hfits.2
  packets := ht.packets
  tcp_order := by
    rw [tcp_writes_concat, ht.tcp_order, List.append_assoc]
    rfl
  other_order := by
    rw [packet_writes_concat, ht.other_order]
    exact List.append_nil _
  checked k p hk := ht.checked_concat _ hk

theorem Tracks.write_packet (ht : Tracks s₀ done s tcps out returned) {data : List UInt8}
    (hfits : Fits s (.write_to_packet_buffer data)) :
    Tracks s₀ (done ++ [.write_to_packet_buffer data]) (step s (.write_to_packet_buffer data)) tcps
      (out ++ [.other data]) returned where
  reached := by rw [steps_concat, ← ht.reached]
  rings := ht.rings.write_to_packet_buffer hfits.1 hfits.2
  packets := ht.packets
  tcp_order := by
    rw [tcp_writes_concat, ht.tcp_order]
    simp [tcp_writes, frame.to_tcp]
  other_order := by
    rw [packet_writes_concat, ht.other_order]
    simp [packet_writes, frame.to_other]
  checked k p hk := by
    apply ht.checked_concat
    -- The new frame is the last one, and it is not a TCP packet.
    rw [List.filter_append, ← List.append_assoc] at hk
    by_cases hlt : k < (returned ++ out.filter fun f => f.packet.isSome).length
    · rwa [List.getElem?_append_left hlt] at hk
    · rw [List.getElem?_append_right (by omega)] at hk
      simp [frame.packet, List.getElem?_singleton] at hk

/-- A dump that moves the oldest packet made its check now, before the packet can be returned. -/
theorem Tracks.move {p : tcp_packet} (ht : Tracks s₀ done s (p :: tcps) out returned)
    {check_block : UInt32 → con_id_type → Bool} (hanswer : check_block p.ack p.con_id = false)
    (hrings : Represents (step s (.dump_tcp_buffer check_block)).pb tcps (out ++ [.tcp p])) :
    Tracks s₀ (done ++ [.dump_tcp_buffer check_block]) (step s (.dump_tcp_buffer check_block)) tcps
      (out ++ [.tcp p]) returned where
  reached := by rw [steps_concat, ← ht.reached]
  rings := hrings
  packets := ht.packets
  tcp_order := by
    rw [tcp_writes_concat, ht.tcp_order]
    simp [tcp_writes, frame.to_tcp]
  other_order := by
    rw [packet_writes_concat, ht.other_order]
    simp [packet_writes, frame.to_other]
  checked k q hk := by
    rw [List.filter_append, ← List.append_assoc] at hk
    by_cases hlt : k < (returned ++ out.filter fun f => f.packet.isSome).length
    · rw [List.getElem?_append_left hlt] at hk
      exact ht.checked_concat _ hk
    · rw [List.getElem?_append_right (by omega)] at hk
      simp only [frame.packet, Option.isSome_some, List.filter_cons_of_pos, List.filter_nil] at hk
      have hq : p = q := by
        rw [List.getElem?_singleton] at hk
        split at hk
        · exact frame.tcp.inj (Option.some.inj hk)
        · cases hk
      subst hq
      have hcount : s.returned.length = returned.length := by
        have hlengths := congrArg List.length ht.packets
        simpa using hlengths.symm
      refine ⟨done.length, check_block, by simp, hanswer, ?_⟩
      rw [List.take_left, ← ht.reached, hcount]
      simp only [List.length_append] at hlt
      omega

theorem used_ne_zero {p : tcp_packet} {pb : packet_buffer_t} (hrings : Represents pb (p :: tcps) out) :
    ringbuf_bytes_used pb.tcp_buffer ≠ 0 := by
  rw [← contents_length, hrings.tcp_contents]
  simp [tcp_packet.bytes]

theorem Tracks.dump (ht : Tracks s₀ done s tcps out returned)
    {check_block : UInt32 → con_id_type → Bool} (hfits : Fits s (.dump_tcp_buffer check_block)) :
    ∃ tcps' out', Tracks s₀ (done ++ [.dump_tcp_buffer check_block])
      (step s (.dump_tcp_buffer check_block)) tcps' out' returned := by
  -- A dump that leaves the rings alone.
  have hsame : (dump_tcp_buffer s.pb check_block).2 = s.pb →
      ∃ tcps' out', Tracks s₀ (done ++ [.dump_tcp_buffer check_block])
        (step s (.dump_tcp_buffer check_block)) tcps' out' returned := by
    intro hpb
    refine ⟨tcps, out, ht.rest rfl rfl rfl ?_ rfl rfl rfl⟩
    change Represents (dump_tcp_buffer s.pb check_block).2 tcps out
    rw [hpb]
    exact ht.rings
  cases tcps with
  | nil =>
    have hempty : ringbuf_bytes_used s.pb.tcp_buffer = 0 := by
      rw [← contents_length, ht.rings.tcp_contents]
      rfl
    exact hsame (by simp [dump_tcp_buffer, hempty])
  | cons p tcps =>
    have hused := used_ne_zero ht.rings
    obtain ⟨hroom, hheader⟩ := hfits
    obtain ⟨hcon, hack, hlen⟩ := ht.rings.oldest (hheader hused)
    rw [dump_bytes, if_neg hused, hcon, hack, hlen] at hroom
    cases hno_op : is_no_op p.con_id
    · cases hanswer : check_block p.ack p.con_id
      · simp only [hno_op, hanswer, Bool.false_eq_true, if_false] at hroom
        exact ⟨tcps, out ++ [.tcp p],
          ht.move hanswer (ht.rings.move (hheader hused) hno_op hanswer hroom)⟩
      · exact hsame (by simp [dump_tcp_buffer, hused, hcon, hack, hno_op, hanswer])
    · simp only [hno_op, if_true] at hroom
      have hbytes : ((p :: tcps).map tcp_packet.bytes).flatten = p.con_id.bytes ++ (leBytes 4 p.ack.toNat ++
          (leBytes 8 p.data.length ++ (p.data ++ (tcps.map tcp_packet.bytes).flatten))) := by
        simp [tcp_packet.bytes]
      have hrings := ht.rings.holds
      rw [hbytes] at hrings
      have hfront : s.pb.tcp_buffer.tail + 16 ≤ s.pb.tcp_buffer.size :=
        Nat.le_trans (by omega) (hheader hused)
      obtain ⟨outgoing, hdump, hholds⟩ := hrings.dump_no_op hfront hno_op hroom check_block
      refine ⟨p :: tcps, out ++ [.tcp_done], ht.rest rfl rfl rfl ?_ ?_ ?_ ?_⟩
      · change Represents (dump_tcp_buffer s.pb check_block).2 _ _
        rw [hdump]
        exact Holds.represents (hbytes ▸ hholds) ht.rings.tcp_len
      · simp [frame.to_tcp]
      · simp [frame.to_other]
      · simp [frame.packet]

theorem Tracks.read (ht : Tracks s₀ done s tcps out returned) :
    ∃ out' returned', Tracks s₀ (done ++ [.packet_buffer_to_buffer]) (step s .packet_buffer_to_buffer)
      tcps out' returned' := by
  by_cases hpos : to_int (ringbuf_bytes_used s.pb.outgoing_buffer) ≤ 0
  · have hnone : packet_buffer_to_buffer s.pb = (0, [], s.pb) := by simp [packet_buffer_to_buffer, hpos]
    refine ⟨out, returned, ht.rest ?_ rfl rfl ?_ rfl rfl rfl⟩
    · simp [step, hnone]
    · simpa [step, hnone] using ht.rings
  cases out with
  | nil =>
    have hempty : ringbuf_bytes_used s.pb.outgoing_buffer = 0 := by
      rw [← contents_length, ht.rings.out_contents]
      rfl
    rw [hempty] at hpos
    exact absurd (by decide) hpos
  | cons f out =>
    obtain ⟨hrings, hresult⟩ := ht.rings.read_frame hpos
    cases hpacket : f.packet with
    | some data =>
      rw [hpacket] at hresult
      obtain ⟨hlen, hdata⟩ := hresult
      have hpositive := (ht.rings.out_len f (by simp) data hpacket).1
      have hreturned : (step s .packet_buffer_to_buffer).returned = s.returned ++ [data] := by
        simp only [step, hlen, hdata]
        rw [if_pos (by omega)]
      refine ⟨out, returned ++ [f], ?_, hrings, ?_, ?_, ?_, ?_⟩
      · rw [steps_concat, ← ht.reached]
      · simp [hreturned, ht.packets, hpacket]
      · rw [tcp_writes_concat, ht.tcp_order]
        simp [tcp_writes]
      · rw [packet_writes_concat, ht.other_order]
        simp [packet_writes]
      · intro k p hk
        apply ht.checked_concat
        rw [List.filter_cons_of_pos (by simp [hpacket])]
        simpa using hk
    | none =>
      rw [hpacket] at hresult
      have hflag : f.to_tcp = none ∧ f.to_other = none := by
        cases f <;> simp_all [frame.packet, frame.to_tcp, frame.to_other]
      refine ⟨out, returned, ht.rest ?_ rfl rfl hrings ?_ ?_ ?_⟩
      · simp only [step]
        rw [if_neg (by omega)]
      · simp [hflag.1]
      · simp [hflag.2]
      · simp [hpacket]

theorem Tracks.step (ht : Tracks s₀ done s tcps out returned) {a : Action} (hfits : Fits s a) :
    ∃ tcps' out' returned', Tracks s₀ (done ++ [a]) (step s a) tcps' out' returned' := by
  cases a with
  | write_to_tcp_buffer p => exact ⟨_, _, _, ht.write_tcp hfits⟩
  | write_to_packet_buffer data => exact ⟨_, _, _, ht.write_packet hfits⟩
  | dump_tcp_buffer check_block =>
    obtain ⟨tcps', out', hdump⟩ := ht.dump hfits
    exact ⟨tcps', out', returned, hdump⟩
  | packet_buffer_to_buffer =>
    obtain ⟨out', returned', hread⟩ := ht.read
    exact ⟨tcps, out', returned', hread⟩

theorem tracks_run {actions : List Action} (ht : Tracks s₀ done s tcps out returned)
    (hok : AllOk packet_buffer.step Fits s actions) :
    ∃ s' tcps' out' returned', Tracks s₀ (done ++ actions) s' tcps' out' returned' := by
  induction actions generalizing done s tcps out returned with
  | nil => exact ⟨s, tcps, out, returned, by simpa using ht⟩
  | cons a actions ih =>
    obtain ⟨tcps', out', returned', hstep⟩ := ht.step hok.1
    obtain ⟨s', tcps'', out'', returned'', hrun⟩ := ih hstep hok.2
    exact ⟨s', tcps'', out'', returned'', by simpa using hrun⟩

end tracks

/-- The packets returned to the guest are frames such that the TCP packets are the first ones written
    to the TCP ring, in order, and the others the first ones written to the packet buffer, in order.
    The TCP packet that is returned at place `k` passed `check_block` in a dump before which at most
    `k` packets were returned. -/
theorem pipeline_keeps_order_and_content (outgoing tcp : Mem) (actions : List Action)
    (hok : AllOk step Fits (start outgoing tcp) actions) :
    ∃ returned : List frame,
      returned.map frame.packet = (steps step (start outgoing tcp) actions).returned.map some ∧
      returned.filterMap frame.to_tcp <+: tcp_writes actions ∧
      returned.filterMap frame.to_other <+: packet_writes actions ∧
      ∀ k p, returned[k]? = some (.tcp p) →
        ∃ i check_block, actions[i]? = some (.dump_tcp_buffer check_block) ∧
          check_block p.ack p.con_id = false ∧
          (steps step (start outgoing tcp) (actions.take i)).returned.length ≤ k := by
  obtain ⟨s, tcps, out, returned, ht⟩ :=
    tracks_run (tracks_start (start outgoing tcp) (represents_init outgoing tcp) rfl) hok
  rw [List.nil_append] at ht
  have hs := ht.reached
  subst hs
  refine ⟨returned, ht.packets, ?_, ?_, ?_⟩
  · rw [ht.tcp_order, List.filterMap_append, List.append_assoc]
    exact List.prefix_append _ _
  · rw [ht.other_order, List.filterMap_append]
    exact List.prefix_append _ _
  · intro k p hk
    apply ht.checked
    rw [List.getElem?_append_left]
    · exact hk
    · by_contra hge
      rw [List.getElem?_eq_none (by omega)] at hk
      cases hk

/-- A TCP packet and another one; the TCP packet is dumped and returned second. -/
def two_packets : List Action :=
  [.write_to_tcp_buffer ⟨⟨1, 80, 0, 2, 81, 0⟩, 7, [65, 66]⟩, .write_to_packet_buffer [67],
    .dump_tcp_buffer (fun _ _ => false), .packet_buffer_to_buffer, .packet_buffer_to_buffer]

theorem two_packets_are_returned :
    AllOk step Fits (start (fun _ => 0) (fun _ => 0)) two_packets ∧
    (steps step (start (fun _ => 0) (fun _ => 0)) two_packets).returned = [[67], [65, 66]] ∧
    ∃ returned : List frame,
      returned.map frame.packet = [some [67], some [65, 66]] ∧
      returned.filterMap frame.to_tcp <+: tcp_writes two_packets ∧
      returned.filterMap frame.to_other <+: packet_writes two_packets := by
  have hok : AllOk step Fits (start (fun _ => 0) (fun _ => 0)) two_packets :=
    ⟨⟨by decide, by decide +kernel⟩, ⟨by decide, by decide +kernel⟩,
      ⟨by decide +kernel, fun _ => by decide +kernel⟩, trivial, trivial, trivial⟩
  have hreturned : (steps step (start (fun _ => 0) (fun _ => 0)) two_packets).returned =
      [[67], [65, 66]] := by decide +kernel
  obtain ⟨returned, hpackets, htcp, hother, -⟩ :=
    pipeline_keeps_order_and_content (fun _ => 0) (fun _ => 0) two_packets hok
  rw [hreturned] at hpackets
  exact ⟨hok, hreturned, returned, hpackets, htcp, hother⟩

end packet_buffer
