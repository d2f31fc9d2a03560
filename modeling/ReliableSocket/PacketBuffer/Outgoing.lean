import ReliableSocket.PacketBuffer

open memory ringbuf

namespace packet_buffer

/-- The other reader of the outgoing ring. It tests the number of bytes as it is and knows no flags. -/
def read_from_packet_buffer (s : packet_buffer_t) : Int × List UInt8 × packet_buffer_t :=
  if ringbuf_bytes_used s.outgoing_buffer = 0 then (0, [], s)
  else
    let header := copy_from s.outgoing_buffer 8
    let buffer_len := leValue header.1
    let buffer := copy_from header.2 buffer_len
    (to_int buffer_len, buffer.1, { s with outgoing_buffer := buffer.2 })

/-- The outgoing ring holds these frames, oldest first. A packet may have any length that fits. -/
structure Framed (s : packet_buffer_t) (out : List frame) : Prop where
  valid : Valid s.outgoing_buffer
  size : s.outgoing_buffer.size = OUTGOING_BUFFER_SIZE + 1
  contents_eq : contents s.outgoing_buffer = (out.map frame.bytes).flatten
  packets : ∀ f ∈ out, ∀ data, f.packet = some data → 1 ≤ data.length

/-- An empty ring gives 0, a flag is taken out, and for a packet both readers return the same length,
    which is not 0, and the same bytes. -/
def YieldsOldest (s : packet_buffer_t) : List frame → Prop
  | [] => (packet_buffer_to_buffer s).1 = 0
  | f :: out =>
    match f.packet with
    | none => contents (packet_buffer_to_buffer s).2.2.outgoing_buffer = (out.map frame.bytes).flatten
    | some data =>
      (packet_buffer_to_buffer s).1 ≠ 0 ∧
        (packet_buffer_to_buffer s).1 = (read_from_packet_buffer s).1 ∧
        (packet_buffer_to_buffer s).2.1 = (read_from_packet_buffer s).2.1 ∧
        (packet_buffer_to_buffer s).2.1 = data

/-- The length of a packet is neither the value of a flag nor one that an `int` takes for 0. -/
def IntLength (data : List UInt8) : Prop :=
  data.length ≠ TCP_DONE_FLAG ∧ data.length ≠ UDP_DONE_FLAG ∧ data.length ≠ 2 ^ 32

section readers

variable {s : packet_buffer_t} {out : List frame} {f : frame}

theorem to_int_pos_iff (n : Nat) : 0 < to_int n ↔ 1 ≤ n % 2 ^ 32 ∧ n % 2 ^ 32 < 2 ^ 31 := by
  rw [to_int, BitVec.toInt_eq_toNat_cond, BitVec.toNat_ofNat]
  split <;> omega

theorem to_int_eq_zero_iff (n : Nat) : to_int n = 0 ↔ n % 2 ^ 32 = 0 := by
  rw [to_int, BitVec.toInt_eq_toNat_cond, BitVec.toNat_ofNat]
  split <;> omega

/-- The fill level of a ring with an oldest frame. -/
theorem Framed.used (hs : Framed s (f :: out)) :
    ringbuf_bytes_used s.outgoing_buffer =
        8 + (f.packet.getD []).length + (out.map frame.bytes).flatten.length ∧
      ringbuf_bytes_used s.outgoing_buffer ≤ OUTGOING_BUFFER_SIZE := by
  have hsum := hs.valid.bytes.2
  rw [hs.size] at hsum
  refine ⟨?_, by omega⟩
  rw [← contents_length, hs.contents_eq, List.map_cons, List.flatten_cons, List.length_append, frame.bytes,
    List.length_append, leBytes_length]

/-- The length field of the oldest frame, and what is behind it. -/
theorem Framed.header (hs : Framed s (f :: out)) :
    ∃ rb, copy_from s.outgoing_buffer 8 = (leBytes 8 f.len, rb) ∧ Valid rb ∧
      contents rb = f.packet.getD [] ++ (out.map frame.bytes).flatten ∧
      leValue (leBytes 8 f.len) = f.len := by
  have hcontents : contents s.outgoing_buffer =
      leBytes 8 f.len ++ (f.packet.getD [] ++ (out.map frame.bytes).flatten) := by
    simp [hs.contents_eq, frame.bytes]
  obtain ⟨rb, hcopy, hvalid, hrest⟩ := copy_from_front (n := 8) hs.valid hcontents (by simp)
  obtain ⟨hused, hle⟩ := hs.used
  have hlt : f.len < 2 ^ 64 := by
    unfold OUTGOING_BUFFER_SIZE at hle
    cases f with
    | tcp p =>
      simp only [frame.packet, Option.getD_some, frame.len] at hused ⊢
      omega
    | other data =>
      simp only [frame.packet, Option.getD_some, frame.len] at hused ⊢
      omega
    | tcp_done => simp [frame.len, TCP_DONE_FLAG]
    | udp_done => simp [frame.len, UDP_DONE_FLAG]
  exact ⟨rb, hcopy, hvalid, hrest, leValue_len hlt⟩

/-- The other reader returns the oldest packet. -/
theorem Framed.read_packet (hs : Framed s (f :: out)) {data : List UInt8} (hdata : f.packet = some data)
    (hlen : f.len = data.length) :
    (read_from_packet_buffer s).1 = to_int data.length ∧ (read_from_packet_buffer s).2.1 = data := by
  obtain ⟨rb, hcopy, hvalid, hcontents, hvalue⟩ := hs.header
  obtain ⟨hused, -⟩ := hs.used
  rw [hdata, Option.getD_some] at hcontents
  rw [hlen] at hcopy hvalue
  obtain ⟨rb', hcopy', -⟩ := copy_from_front hvalid hcontents rfl
  have hpos : ringbuf_bytes_used s.outgoing_buffer ≠ 0 := by omega
  simp only [read_from_packet_buffer, hpos, if_false, hcopy, hvalue, hcopy', and_self]

/-- A reader for which the ring is empty leaves the oldest frame where it is. -/
theorem Framed.not_yields (hs : Framed s (f :: out))
    (hpos : ¬ 0 < to_int (ringbuf_bytes_used s.outgoing_buffer)) : ¬ YieldsOldest s (f :: out) := by
  have hnone : packet_buffer_to_buffer s = (0, [], s) := by
    rw [packet_buffer_to_buffer, if_pos (by omega)]
  rw [YieldsOldest, hnone]
  cases f.packet with
  | none =>
    intro hcontents
    have hlength := congrArg List.length hcontents
    obtain ⟨hused, -⟩ := hs.used
    rw [contents_length, hused] at hlength
    omega
  | some data => exact fun h => h.1 rfl

/-- A reader that sees the ring filled takes the flag out. -/
theorem Framed.yields_flag (hs : Framed s (f :: out))
    (hpos : 0 < to_int (ringbuf_bytes_used s.outgoing_buffer)) (hflag : f.packet = none) :
    YieldsOldest s (f :: out) := by
  obtain ⟨rb, hcopy, -, hcontents, hvalue⟩ := hs.header
  rw [hflag, Option.getD_none, List.nil_append] at hcontents
  have hnot : ¬ to_int (ringbuf_bytes_used s.outgoing_buffer) ≤ 0 := by omega
  have hring : (packet_buffer_to_buffer s).2.2.outgoing_buffer = rb := by
    cases f with
    | tcp p => cases hflag
    | other data => cases hflag
    | tcp_done =>
      rw [frame.len] at hcopy hvalue
      simp only [packet_buffer_to_buffer, hnot, if_false, hcopy, hvalue, if_true]
      split <;> rfl
    | udp_done =>
      have hne : UDP_DONE_FLAG ≠ TCP_DONE_FLAG := by decide
      rw [frame.len] at hcopy hvalue
      simp only [packet_buffer_to_buffer, hnot, if_false, hcopy, hvalue, hne, if_true]
      split <;> rfl
  simp only [YieldsOldest, hflag, hring, hcontents]

/-- A reader that sees the ring filled yields the oldest packet exactly when it does not take its
    length for something else. -/
theorem Framed.yields_packet_iff (hs : Framed s (f :: out))
    (hpos : 0 < to_int (ringbuf_bytes_used s.outgoing_buffer)) {data : List UInt8}
    (hdata : f.packet = some data) : YieldsOldest s (f :: out) ↔ IntLength data := by
  have hlen : f.len = data.length := by
    cases f with
    | tcp p => exact congrArg List.length (Option.some.inj hdata)
    | other data => exact congrArg List.length (Option.some.inj hdata)
    | tcp_done => cases hdata
    | udp_done => cases hdata
  obtain ⟨rb, hcopy, hvalid, hcontents, hvalue⟩ := hs.header
  obtain ⟨hresult, hbytes⟩ := hs.read_packet hdata hlen
  obtain ⟨hused, hle⟩ := hs.used
  rw [hdata, Option.getD_some] at hcontents hused
  have hnot : ¬ to_int (ringbuf_bytes_used s.outgoing_buffer) ≤ 0 := by omega
  rw [hlen] at hcopy hvalue
  obtain ⟨rb', hcopy', -⟩ := copy_from_front hvalid hcontents rfl
  simp only [YieldsOldest, hdata, hresult, hbytes, IntLength, packet_buffer_to_buffer, hnot, if_false, hcopy,
    hvalue, hcopy']
  by_cases htcp : data.length = TCP_DONE_FLAG
  · have hflag : to_int TCP_DONE_FLAG = 100000000 := by decide
    simp only [htcp, hflag, if_true, not_true_eq_false, ne_eq, false_and, iff_false]
    split <;> simp
  by_cases hudp : data.length = UDP_DONE_FLAG
  · have hflag : to_int UDP_DONE_FLAG = 200000000 := by decide
    have hne : UDP_DONE_FLAG ≠ TCP_DONE_FLAG := by decide
    simp only [hudp, hflag, hne, if_true, if_false, not_true_eq_false, ne_eq, false_and, and_false, iff_false]
    split <;> simp
  · have hone := hs.packets f (by simp) data hdata
    simp only [htcp, hudp, if_false, ne_eq, to_int_eq_zero_iff, not_false_eq_true, true_and, and_true]
    unfold OUTGOING_BUFFER_SIZE at hle
    omega

end readers

/-- The reader gives the oldest packet of the ring exactly when the number of bytes in the ring is
    positive as an `int`, and the length of the packet is not taken for something else. -/
theorem yields_oldest_iff (s : packet_buffer_t) (out : List frame) (hs : Framed s out) :
    YieldsOldest s out ↔ ∀ f, out.head? = some f →
      1 ≤ ringbuf_bytes_used s.outgoing_buffer % 2 ^ 32 ∧
        ringbuf_bytes_used s.outgoing_buffer % 2 ^ 32 < 2 ^ 31 ∧
        ∀ data, f.packet = some data → IntLength data := by
  cases out with
  | nil =>
    have hempty : ringbuf_bytes_used s.outgoing_buffer = 0 := by
      rw [← contents_length, hs.contents_eq]
      rfl
    have hzero : to_int 0 ≤ 0 := by decide
    simp [YieldsOldest, packet_buffer_to_buffer, hempty, hzero]
  | cons f rest =>
    simp only [List.head?_cons, Option.some.injEq, forall_eq']
    rw [← and_assoc, ← to_int_pos_iff]
    by_cases hpos : 0 < to_int (ringbuf_bytes_used s.outgoing_buffer)
    · cases hpacket : f.packet with
      | none => simp [hpos, hs.yields_flag hpos hpacket]
      | some data =>
        rw [hs.yields_packet_iff hpos hpacket]
        simp [hpos]
    · simp [hpos, hs.not_yields hpos]

theorem framed_init (outgoing tcp : Mem) : Framed (init_packet_buffer outgoing tcp) [] :=
  ⟨valid_new _ _, rfl, contents_new _ _, by simp⟩

theorem Framed.write {s : packet_buffer_t} {out : List frame} (hs : Framed s out) {buffer : List UInt8}
    (hlen : 1 ≤ buffer.length)
    (hroom : 8 + buffer.length + (out.map frame.bytes).flatten.length ≤ OUTGOING_BUFFER_SIZE) :
    Framed (write_to_packet_buffer s buffer) (out ++ [.other buffer]) := by
  have hfree := hs.valid.bytes.2
  rw [← contents_length, hs.contents_eq, hs.size] at hfree
  obtain ⟨hvalid, hcontents, -⟩ := into_into (leBytes 8 buffer.length) buffer hs.valid
    (by rw [leBytes_length]; omega)
  obtain ⟨hvalid₁, hsize₁⟩ := hs.valid.memcpy_into (leBytes 8 buffer.length)
  refine ⟨hvalid, ((hvalid₁.memcpy_into buffer).2.trans hsize₁).trans hs.size, ?_, ?_⟩
  · rw [write_to_packet_buffer, hcontents, hs.contents_eq]
    simp [frame.bytes, frame.packet, frame.len]
  · intro f hf data hdata
    obtain hf | hf := List.mem_append.mp hf
    · exact hs.packets f hf data hdata
    · obtain rfl := List.mem_singleton.mp hf
      exact Option.some.inj hdata ▸ hlen

/-- A ring that was emptied four bytes before the end of its memory, and then took two packets. -/
def wrapped_ring : packet_buffer_t :=
  let s := init_packet_buffer (fun _ => 0) (fun _ => 0)
  let s := { s with outgoing_buffer :=
    ⟨fun _ => 0, OUTGOING_BUFFER_SIZE - 3, OUTGOING_BUFFER_SIZE - 3, OUTGOING_BUFFER_SIZE + 1⟩ }
  write_to_packet_buffer (write_to_packet_buffer s [65, 66]) [67, 68, 69]

theorem wrapped_packet_is_yielded :
    wrapped_ring.outgoing_buffer.head < wrapped_ring.outgoing_buffer.tail ∧
      Framed wrapped_ring [.other [65, 66], .other [67, 68, 69]] ∧
      YieldsOldest wrapped_ring [.other [65, 66], .other [67, 68, 69]] := by
  have hempty : Framed { init_packet_buffer (fun _ => 0) (fun _ => 0) with outgoing_buffer :=
      ⟨fun _ => 0, OUTGOING_BUFFER_SIZE - 3, OUTGOING_BUFFER_SIZE - 3, OUTGOING_BUFFER_SIZE + 1⟩ } [] :=
    ⟨⟨by decide, by decide⟩, rfl, contents_of_empty rfl, by simp⟩
  have hframed : Framed wrapped_ring [.other [65, 66], .other [67, 68, 69]] :=
    (hempty.write (by decide) (by decide)).write (by decide) (by decide)
  obtain ⟨hused, -⟩ := hframed.used
  refine ⟨by decide +kernel, hframed, (yields_oldest_iff _ _ hframed).mpr ?_⟩
  rintro f hf
  obtain rfl := Option.some.inj hf
  rw [hused]
  refine ⟨by decide, by decide, fun data hdata => ?_⟩
  obtain rfl := Option.some.inj hdata
  exact ⟨by decide, by decide, by decide⟩

/-- A packet of 65528 bytes, of which each takes 64 KiB of the ring. -/
def big_packet : List UInt8 := List.replicate 65528 0

def big_packets : Nat → packet_buffer_t
  | 0 => init_packet_buffer (fun _ => 0) (fun _ => 0)
  | k + 1 => write_to_packet_buffer (big_packets k) big_packet

theorem big_packets_length (k : Nat) :
    ((List.replicate k (.other big_packet)).map frame.bytes).flatten.length = 65536 * k := by
  have hbig : big_packet.length = 65528 := List.length_replicate
  have hbytes : (frame.other big_packet).bytes.length = 65536 := by
    rw [frame.bytes, frame.packet, Option.getD_some, List.length_append, leBytes_length, hbig]
  rw [List.map_replicate, List.length_flatten, List.map_replicate, List.sum_replicate_nat, hbytes,
    Nat.mul_comm]

theorem big_packets_framed {k : Nat} (hk : k ≤ 32768) :
    Framed (big_packets k) (List.replicate k (.other big_packet)) := by
  induction k with
  | zero => exact framed_init _ _
  | succ k ih =>
    have hlength := big_packets_length k
    have hbig : big_packet.length = 65528 := List.length_replicate
    rw [big_packets, List.replicate_succ']
    refine (ih (by omega)).write (by omega) ?_
    unfold OUTGOING_BUFFER_SIZE
    omega

/-- A ring with 2 GiB in it is empty for the reader. -/
theorem two_gib_are_not_yielded :
    Framed (big_packets 32768) (List.replicate 32768 (.other big_packet)) ∧
      ringbuf_bytes_used (big_packets 32768).outgoing_buffer = 2147483648 ∧
      (packet_buffer_to_buffer (big_packets 32768)).1 = 0 ∧
      ¬ YieldsOldest (big_packets 32768) (List.replicate 32768 (.other big_packet)) := by
  have hframed := big_packets_framed (Nat.le_refl 32768)
  have hlength := big_packets_length 32768
  have hsucc : List.replicate 32768 (frame.other big_packet) =
      .other big_packet :: List.replicate 32767 (.other big_packet) := List.replicate_succ
  generalize big_packets 32768 = s at *
  have hused : ringbuf_bytes_used s.outgoing_buffer = 2147483648 := by
    rw [← contents_length, hframed.contents_eq, hlength]
  have hpos : ¬ 0 < to_int (ringbuf_bytes_used s.outgoing_buffer) := by
    rw [hused]
    decide
  refine ⟨hframed, hused, ?_, ?_⟩
  · rw [packet_buffer_to_buffer, if_pos (by omega)]
  · rw [hsucc] at hframed ⊢
    exact hframed.not_yields hpos

end packet_buffer
