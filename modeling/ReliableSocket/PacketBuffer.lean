import ReliableSocket.Run
import ReliableSocket.Utils.Ringbuf

open memory ringbuf

namespace packet_buffer

def OUTGOING_BUFFER_SIZE : Nat := 5120000000
def TCP_BUFFER_SIZE : Nat := 5120000000
def TCP_DONE_FLAG : Nat := 100000000
def UDP_DONE_FLAG : Nat := 200000000
def UINT32_MAX : UInt32 := 0xFFFFFFFF

/-- Connection identifier, with the two gaps that the layout of the structure leaves. -/
structure con_id_type where
  src_ip : UInt32
  src_port : UInt16
  pad_0 : UInt16
  dst_ip : UInt32
  dst_port : UInt16
  pad_1 : UInt16
deriving DecidableEq, Repr

namespace con_id_type

/-- The 16 bytes of a connection identifier in memory. -/
def bytes (con : con_id_type) : List UInt8 :=
  leBytes 4 con.src_ip.toNat ++ (leBytes 2 con.src_port.toNat ++ (leBytes 2 con.pad_0.toNat ++
    (leBytes 4 con.dst_ip.toNat ++ (leBytes 2 con.dst_port.toNat ++ leBytes 2 con.pad_1.toNat))))

/-- The connection identifier at address `a`. -/
def read (m : Mem) (a : Nat) : con_id_type where
  src_ip := loadU32 m a
  src_port := loadU16 m (a + 4)
  pad_0 := loadU16 m (a + 6)
  dst_ip := loadU32 m (a + 8)
  dst_port := loadU16 m (a + 12)
  pad_1 := loadU16 m (a + 14)

@[simp] theorem bytes_length (con : con_id_type) : con.bytes.length = 16 := by
  simp [bytes]

theorem read_of_load {m : Mem} {a : Nat} {con : con_id_type} (hload : load m a 16 = con.bytes) :
    read m a = con := by
  have hsplit : load m a 16 = load m a 4 ++ (load m (a + 4) 2 ++ (load m (a + 6) 2 ++
      (load m (a + 8) 4 ++ (load m (a + 12) 2 ++ load m (a + 14) 2)))) := by
    rw [← load_append m (a + 12) 2 2, ← load_append m (a + 8) 4 4, ← load_append m (a + 6) 2 8,
      ← load_append m (a + 4) 2 10, ← load_append m a 4 12]
  rw [hsplit, bytes] at hload
  obtain ⟨hsrc_ip, hload⟩ := List.append_inj hload (by simp)
  obtain ⟨hsrc_port, hload⟩ := List.append_inj hload (by simp)
  obtain ⟨hpad_0, hload⟩ := List.append_inj hload (by simp)
  obtain ⟨hdst_ip, hload⟩ := List.append_inj hload (by simp)
  obtain ⟨hdst_port, hpad_1⟩ := List.append_inj hload (by simp)
  cases con
  simp only [read, mk.injEq]
  exact ⟨loadU32_of_load hsrc_ip, loadU16_of_load hsrc_port, loadU16_of_load hpad_0,
    loadU32_of_load hdst_ip, loadU16_of_load hdst_port, loadU16_of_load hpad_1⟩

/-- The bytes of a connection identifier that is read are those in memory. -/
theorem bytes_read (m : Mem) (a : Nat) : (read m a).bytes = load m a 16 := by
  have hu32 : ∀ b, leBytes 4 (loadU32 m b).toNat = load m b 4 := by
    intro b
    have hlt := leValue_lt (load m b 4)
    have hbytes := leBytes_leValue (load m b 4)
    rw [load_length] at hlt hbytes
    rw [loadU32, UInt32.toNat_ofNat', Nat.mod_eq_of_lt (by omega), hbytes]
  have hu16 : ∀ b, leBytes 2 (loadU16 m b).toNat = load m b 2 := by
    intro b
    have hlt := leValue_lt (load m b 2)
    have hbytes := leBytes_leValue (load m b 2)
    rw [load_length] at hlt hbytes
    rw [loadU16, UInt16.toNat_ofNat', Nat.mod_eq_of_lt (by omega), hbytes]
  rw [bytes, read, hu32, hu32, hu16, hu16, hu16, hu16, ← load_append m (a + 12) 2 2,
    ← load_append m (a + 8) 4 4, ← load_append m (a + 6) 2 8, ← load_append m (a + 4) 2 10,
    ← load_append m a 4 12]

theorem load_of_read_eq {m m' : Mem} {a b : Nat} (heq : read m a = read m' b) :
    load m a 16 = load m' b 16 := by
  rw [← bytes_read, heq, bytes_read]

/-- Keys that are compared as raw bytes are equal only if all their fields are, gaps included. -/
theorem bytes_inj {con con' : con_id_type} (heq : con.bytes = con'.bytes) : con = con' := by
  have hload : ∀ c : con_id_type, load (store (fun _ => 0) 0 c.bytes) 0 16 = c.bytes :=
    fun c => load_store (bytes_length c)
  rw [← read_of_load (hload con), ← read_of_load (hload con'), heq]

end con_id_type

/-- The two rings and the flags of the drain at a leader change. -/
structure packet_buffer_t where
  outgoing_buffer : ringbuf_t
  tcp_buffer : ringbuf_t
  udp_done : Bool
  tcp_done : Bool

/-- The memory of the rings is allocated and not cleared. -/
def init_packet_buffer (outgoing tcp : Mem) : packet_buffer_t where
  outgoing_buffer := ringbuf_new outgoing OUTGOING_BUFFER_SIZE
  tcp_buffer := ringbuf_new tcp TCP_BUFFER_SIZE
  udp_done := false
  tcp_done := false

/-- A `size_t` as an `int`. -/
def to_int (n : Nat) : Int := (BitVec.ofNat 32 n).toInt

/-- The bytes that a call of `ringbuf_memcpy_from` puts into its destination, and the ring. If there
    are not enough bytes the call is ignored and nothing is put there. -/
def copy_from (rb : ringbuf_t) (count : Nat) : List UInt8 × ringbuf_t :=
  (ringbuf_memcpy_from rb count).getD ([], rb)

def write_to_packet_buffer (s : packet_buffer_t) (buffer : List UInt8) : packet_buffer_t :=
  let outgoing := ringbuf_memcpy_into s.outgoing_buffer (leBytes 8 buffer.length)
  { s with outgoing_buffer := ringbuf_memcpy_into outgoing buffer }

/-- The result, what is put into the buffer, and the new state. The limit `maxlen` is ignored. -/
def packet_buffer_to_buffer (s : packet_buffer_t) : Int × List UInt8 × packet_buffer_t :=
  if to_int (ringbuf_bytes_used s.outgoing_buffer) ≤ 0 then (0, [], s)
  else
    let header := copy_from s.outgoing_buffer 8
    let next_buffer_len := leValue header.1
    let s := { s with outgoing_buffer := header.2 }
    if next_buffer_len = TCP_DONE_FLAG then
      if s.udp_done then (-99, [], { s with tcp_done := false, udp_done := false })
      else (0, [], { s with tcp_done := true })
    else if next_buffer_len = UDP_DONE_FLAG then
      if s.tcp_done then (-99, [], { s with tcp_done := false, udp_done := false })
      else (0, [], { s with udp_done := true })
    else
      let packet := copy_from s.outgoing_buffer next_buffer_len
      (to_int next_buffer_len, packet.1, { s with outgoing_buffer := packet.2 })

def write_to_tcp_buffer (s : packet_buffer_t) (con : con_id_type) (ack : UInt32) (buffer : List UInt8) :
    packet_buffer_t :=
  let tcp := ringbuf_memcpy_into s.tcp_buffer con.bytes
  let tcp := ringbuf_memcpy_into tcp (leBytes 4 ack.toNat)
  let tcp := ringbuf_memcpy_into tcp (leBytes 8 buffer.length)
  { s with tcp_buffer := ringbuf_memcpy_into tcp buffer }

/-- The entry that `append_no_op` puts behind the last packet. -/
def is_no_op (con : con_id_type) : Bool := con.src_ip = UINT32_MAX && con.dst_ip = UINT32_MAX

/-- Connection and ACK are looked at through the tail pointer, the record is then copied. The answer
    `true` of `check_block` stands for 1. -/
def dump_tcp_buffer (s : packet_buffer_t) (check_block : UInt32 → con_id_type → Bool) :
    Int × packet_buffer_t :=
  if ringbuf_bytes_used s.tcp_buffer = 0 then (0, s)
  else
    let con := con_id_type.read s.tcp_buffer.buf s.tcp_buffer.tail
    if is_no_op con then
      (-99, { s with
        outgoing_buffer := ringbuf_memcpy_into s.outgoing_buffer (leBytes 8 TCP_DONE_FLAG) })
    else if check_block (loadU32 s.tcp_buffer.buf (s.tcp_buffer.tail + 16)) con then (-1, s)
    else
      let con_id := copy_from s.tcp_buffer 16
      let ack := copy_from con_id.2 4
      let len := copy_from ack.2 8
      let next_buffer_len := leValue len.1
      let buffer := copy_from len.2 next_buffer_len
      let outgoing := ringbuf_memcpy_into s.outgoing_buffer (leBytes 8 next_buffer_len)
      (to_int next_buffer_len, { s with
        tcp_buffer := buffer.2
        outgoing_buffer := ringbuf_memcpy_into outgoing buffer.1 })

/-- The connection identifier of the entry that marks the end of the packets of a follower. -/
def no_op : con_id_type where
  src_ip := UINT32_MAX
  src_port := 0
  pad_0 := 0
  dst_ip := UINT32_MAX
  dst_port := 0
  pad_1 := 0

/-- Only the connection identifier is written to the TCP ring. -/
def append_no_op (s : packet_buffer_t) : packet_buffer_t :=
  { s with
    tcp_buffer := ringbuf_memcpy_into s.tcp_buffer no_op.bytes
    outgoing_buffer := ringbuf_memcpy_into s.outgoing_buffer (leBytes 8 UDP_DONE_FLAG) }

/-- A packet of a TCP connection, as it is written. -/
structure tcp_packet where
  con_id : con_id_type
  ack : UInt32
  data : List UInt8
deriving DecidableEq

def tcp_packet.bytes (p : tcp_packet) : List UInt8 :=
  p.con_id.bytes ++ (leBytes 4 p.ack.toNat ++ (leBytes 8 p.data.length ++ p.data))

/-- What stands in the outgoing ring: packets of TCP connections, other packets, and the flags of the
    drain. -/
inductive frame where
  | tcp (p : tcp_packet)
  | other (data : List UInt8)
  | tcp_done
  | udp_done
deriving DecidableEq

namespace frame

/-- The packet in a frame, if it is not a flag. -/
def packet : frame → Option (List UInt8)
  | .tcp p => some p.data
  | .other data => some data
  | .tcp_done | .udp_done => none

def to_tcp : frame → Option tcp_packet
  | .tcp p => some p
  | .other _ | .tcp_done | .udp_done => none

def to_other : frame → Option (List UInt8)
  | .other data => some data
  | .tcp _ | .tcp_done | .udp_done => none

/-- The length field of a frame. -/
def len : frame → Nat
  | .tcp p => p.data.length
  | .other data => data.length
  | .tcp_done => TCP_DONE_FLAG
  | .udp_done => UDP_DONE_FLAG

def bytes (f : frame) : List UInt8 := leBytes 8 f.len ++ f.packet.getD []

end frame

/-- Lengths of network packets. -/
def PacketLen (data : List UInt8) : Prop := 1 ≤ data.length ∧ data.length ≤ 65535

instance (data : List UInt8) : Decidable (PacketLen data) := inferInstanceAs (Decidable (_ ∧ _))

/-- The rings hold these packets and frames, oldest first. -/
structure Represents (s : packet_buffer_t) (tcps : List tcp_packet) (out : List frame) : Prop where
  tcp_valid : Valid s.tcp_buffer
  out_valid : Valid s.outgoing_buffer
  tcp_contents : contents s.tcp_buffer = (tcps.map tcp_packet.bytes).flatten
  out_contents : contents s.outgoing_buffer = (out.map frame.bytes).flatten
  tcp_len : ∀ p ∈ tcps, PacketLen p.data
  out_len : ∀ f ∈ out, ∀ data, f.packet = some data → PacketLen data

/-- The TCP ring holds these bytes and the outgoing ring these frames. -/
structure Holds (s : packet_buffer_t) (tcp : List UInt8) (out : List frame) : Prop where
  tcp_valid : Valid s.tcp_buffer
  out_valid : Valid s.outgoing_buffer
  tcp_contents : contents s.tcp_buffer = tcp
  out_contents : contents s.outgoing_buffer = (out.map frame.bytes).flatten
  out_len : ∀ f ∈ out, ∀ data, f.packet = some data → PacketLen data

section rings

variable {rb : ringbuf_t} {bs rest : List UInt8}

/-- Taking out the bytes at the front. -/
theorem copy_from_front (hrb : Valid rb) (hcontents : contents rb = bs ++ rest) {n : Nat}
    (hn : bs.length = n) :
    ∃ rb', copy_from rb n = (bs, rb') ∧ Valid rb' ∧ contents rb' = rest := by
  have hused : n ≤ ringbuf_bytes_used rb := by
    rw [← contents_length, hcontents, List.length_append]
    omega
  obtain ⟨rb', hfrom, hvalid, hrest, -⟩ := memcpy_from_spec hrb hused
  rw [hcontents, List.take_left' hn] at hfrom
  rw [hcontents, List.drop_left' hn] at hrest
  exact ⟨rb', by rw [copy_from, hfrom]; rfl, hvalid, hrest⟩

theorem copy_from_valid (hrb : Valid rb) (count : Nat) :
    Valid (copy_from rb count).2 ∧ (copy_from rb count).2.size = rb.size ∧
      (copy_from rb count).2.head = rb.head := by
  rw [copy_from, ringbuf_memcpy_from]
  split
  · exact ⟨hrb, rfl, rfl⟩
  · exact hrb.from_loop count count

/-- Writing in two calls what fits as a whole. -/
theorem into_into (bs cs : List UInt8) (hrb : Valid rb)
    (hfits : bs.length + cs.length ≤ ringbuf_bytes_free rb) :
    Valid (ringbuf_memcpy_into (ringbuf_memcpy_into rb bs) cs) ∧
      contents (ringbuf_memcpy_into (ringbuf_memcpy_into rb bs) cs) = contents rb ++ (bs ++ cs) ∧
      ringbuf_bytes_free (ringbuf_memcpy_into (ringbuf_memcpy_into rb bs) cs) + (bs.length + cs.length) =
        ringbuf_bytes_free rb ∧
      (ringbuf_memcpy_into (ringbuf_memcpy_into rb bs) cs).tail = rb.tail := by
  obtain ⟨hvalid₁, hcontents₁, hsize₁, htail₁⟩ := memcpy_into_spec bs hrb (by omega)
  have hbytes := hrb.bytes.2
  have hbytes₁ := hvalid₁.bytes.2
  rw [← contents_length, hcontents₁, List.length_append, contents_length, hsize₁] at hbytes₁
  obtain ⟨hvalid₂, hcontents₂, hsize₂, htail₂⟩ := memcpy_into_spec cs hvalid₁ (by omega)
  have hbytes₂ := hvalid₂.bytes.2
  rw [← contents_length, hcontents₂, hcontents₁, List.length_append, List.length_append, contents_length,
    hsize₂, hsize₁] at hbytes₂
  exact ⟨hvalid₂, by rw [hcontents₂, hcontents₁, List.append_assoc], by omega, htail₂.trans htail₁⟩

end rings

theorem leValue_len {n : Nat} (hn : n < 2 ^ 64) : leValue (leBytes 8 n) = n := by
  rw [leValue_leBytes]
  exact Nat.mod_eq_of_lt (by omega)

/-- The length field of a frame, and that flags are longer than any packet. -/
theorem frame_len {f : frame} (hlen : ∀ data, f.packet = some data → PacketLen data) :
    f.len < 2 ^ 64 ∧ (f.len = TCP_DONE_FLAG ↔ f = .tcp_done) ∧ (f.len = UDP_DONE_FLAG ↔ f = .udp_done) := by
  unfold TCP_DONE_FLAG UDP_DONE_FLAG
  cases f with
  | tcp p =>
    obtain ⟨-, hle⟩ := hlen p.data rfl
    simp only [frame.len, reduceCtorEq, iff_false]
    omega
  | other data =>
    obtain ⟨-, hle⟩ := hlen data rfl
    simp only [frame.len, reduceCtorEq, iff_false]
    omega
  | tcp_done => simp [frame.len, TCP_DONE_FLAG]
  | udp_done => simp [frame.len, UDP_DONE_FLAG]

section operations

variable {s : packet_buffer_t} {tcps : List tcp_packet} {tcp : List UInt8} {out : List frame}

theorem represents_init (outgoing tcp : Mem) : Represents (init_packet_buffer outgoing tcp) [] [] where
  tcp_valid := valid_new _ _
  out_valid := valid_new _ _
  tcp_contents := contents_new _ _
  out_contents := contents_new _ _
  tcp_len := by simp
  out_len := by simp

theorem Represents.holds (hs : Represents s tcps out) :
    Holds s (tcps.map tcp_packet.bytes).flatten out :=
  ⟨hs.tcp_valid, hs.out_valid, hs.tcp_contents, hs.out_contents, hs.out_len⟩

theorem Holds.represents (hs : Holds s (tcps.map tcp_packet.bytes).flatten out)
    (hlen : ∀ p ∈ tcps, PacketLen p.data) : Represents s tcps out :=
  ⟨hs.tcp_valid, hs.out_valid, hs.tcp_contents, hs.out_contents, hlen, hs.out_len⟩

theorem Holds.put {outgoing : ringbuf_t} (hs : Holds s tcp out) {f : frame} (hvalid : Valid outgoing)
    (hcontents : contents outgoing = contents s.outgoing_buffer ++ f.bytes)
    (hlen : ∀ data, f.packet = some data → PacketLen data) :
    Holds { s with outgoing_buffer := outgoing } tcp (out ++ [f]) where
  tcp_valid := hs.tcp_valid
  out_valid := hvalid
  tcp_contents := hs.tcp_contents
  out_contents := by simp [hcontents, hs.out_contents]
  out_len := by
    intro g hg
    rcases List.mem_append.mp hg with hg | hg
    · exact hs.out_len g hg
    · obtain rfl := List.mem_singleton.mp hg
      exact hlen

theorem Holds.put_tcp {rb : ringbuf_t} {bs : List UInt8} (hs : Holds s tcp out) (hvalid : Valid rb)
    (hcontents : contents rb = contents s.tcp_buffer ++ bs) :
    Holds { s with tcp_buffer := rb } (tcp ++ bs) out :=
  ⟨hvalid, hs.out_valid, by rw [hcontents, hs.tcp_contents], hs.out_contents, hs.out_len⟩

theorem Holds.write_to_packet_buffer (hs : Holds s tcp out) {buffer : List UInt8}
    (hlen : PacketLen buffer) (hroom : 8 + buffer.length ≤ ringbuf_bytes_free s.outgoing_buffer) :
    Holds (write_to_packet_buffer s buffer) tcp (out ++ [.other buffer]) := by
  obtain ⟨hvalid, hcontents, -⟩ := into_into (leBytes 8 buffer.length) buffer hs.out_valid
    (by simpa using hroom)
  exact hs.put hvalid hcontents fun data hdata => Option.some.inj hdata ▸ hlen

theorem Holds.write_to_tcp_buffer (hs : Holds s tcp out) {p : tcp_packet}
    (hroom : 28 + p.data.length ≤ ringbuf_bytes_free s.tcp_buffer) :
    Holds (write_to_tcp_buffer s p.con_id p.ack p.data) (tcp ++ p.bytes) out ∧
      (write_to_tcp_buffer s p.con_id p.ack p.data).tcp_buffer.tail = s.tcp_buffer.tail := by
  obtain ⟨hvalid₁, hcontents₁, hfree, htail₁⟩ := into_into p.con_id.bytes (leBytes 4 p.ack.toNat) hs.tcp_valid
    (by simp only [con_id_type.bytes_length, leBytes_length]; omega)
  obtain ⟨hvalid₂, hcontents₂, -, htail₂⟩ := into_into (leBytes 8 p.data.length) p.data hvalid₁ (by
    simp only [con_id_type.bytes_length, leBytes_length] at hfree ⊢
    omega)
  exact ⟨hs.put_tcp hvalid₂ (by rw [hcontents₂, hcontents₁]; simp [tcp_packet.bytes]), htail₂.trans htail₁⟩

theorem Represents.write_to_packet_buffer (hs : Represents s tcps out) {buffer : List UInt8}
    (hlen : PacketLen buffer) (hroom : 8 + buffer.length ≤ ringbuf_bytes_free s.outgoing_buffer) :
    Represents (write_to_packet_buffer s buffer) tcps (out ++ [.other buffer]) :=
  (hs.holds.write_to_packet_buffer hlen hroom).represents hs.tcp_len

theorem Represents.write_to_tcp_buffer (hs : Represents s tcps out) {p : tcp_packet}
    (hlen : PacketLen p.data) (hroom : 28 + p.data.length ≤ ringbuf_bytes_free s.tcp_buffer) :
    Represents (write_to_tcp_buffer s p.con_id p.ack p.data) (tcps ++ [p]) out := by
  obtain ⟨hholds, -⟩ := hs.holds.write_to_tcp_buffer hroom
  refine Holds.represents (by simpa using hholds) ?_
  intro q hq
  rcases List.mem_append.mp hq with hq | hq
  · exact hs.tcp_len q hq
  · obtain rfl := List.mem_singleton.mp hq
    exact hlen

/-- The result of a call that finds a frame, what it puts into the buffer, and the flags after it. -/
def read_result (s : packet_buffer_t) : frame → Int × List UInt8 × Bool × Bool
  | .tcp p => (p.data.length, p.data, s.udp_done, s.tcp_done)
  | .other data => (data.length, data, s.udp_done, s.tcp_done)
  | .tcp_done => if s.udp_done then (-99, [], false, false) else (0, [], s.udp_done, true)
  | .udp_done => if s.tcp_done then (-99, [], false, false) else (0, [], true, s.tcp_done)

theorem to_int_packet {data : List UInt8} (hlen : PacketLen data) : to_int data.length = data.length := by
  have hle := hlen.2
  have hsmall : (BitVec.ofNat 32 data.length).toNat = data.length := by
    rw [BitVec.toNat_ofNat]
    exact Nat.mod_eq_of_lt (by omega)
  rw [to_int, BitVec.toInt_eq_toNat_of_lt (by omega), hsmall]

/-- A reader that finds the ring filled takes the oldest frame out. -/
theorem Holds.read_frame {f : frame} (hs : Holds s tcp (f :: out))
    (hpos : ¬ to_int (ringbuf_bytes_used s.outgoing_buffer) ≤ 0) :
    ∃ outgoing, packet_buffer_to_buffer s =
        ((read_result s f).1, (read_result s f).2.1,
          ⟨outgoing, s.tcp_buffer, (read_result s f).2.2.1, (read_result s f).2.2.2⟩) ∧
      ∀ udp_done tcp_done, Holds ⟨outgoing, s.tcp_buffer, udp_done, tcp_done⟩ tcp out := by
  have hlen := hs.out_len f (by simp)
  obtain ⟨hlt, htcp, hudp⟩ := frame_len hlen
  have hcontents : contents s.outgoing_buffer = leBytes 8 f.len ++ (f.packet.getD [] ++
      (out.map frame.bytes).flatten) := by
    simp [hs.out_contents, frame.bytes]
  have htake : ∀ outgoing, Valid outgoing → contents outgoing = (out.map frame.bytes).flatten →
      ∀ udp_done tcp_done, Holds ⟨outgoing, s.tcp_buffer, udp_done, tcp_done⟩ tcp out :=
    fun outgoing hvalid hcontents _ _ =>
      ⟨hs.tcp_valid, hvalid, hs.tcp_contents, hcontents, fun g hg => hs.out_len g (by simp [hg])⟩
  obtain ⟨rb₁, hheader, hvalid₁, hcontents₁⟩ := copy_from_front (n := 8) hs.out_valid hcontents (by simp)
  -- A packet is copied in a second call, a flag has no bytes behind its length field.
  have hpacket : ∀ data, f.packet = some data → f.len = data.length → f ≠ .tcp_done → f ≠ .udp_done →
      ∃ outgoing, packet_buffer_to_buffer s =
          ((data.length : Int), data, ⟨outgoing, s.tcp_buffer, s.udp_done, s.tcp_done⟩) ∧
        ∀ udp_done tcp_done, Holds ⟨outgoing, s.tcp_buffer, udp_done, tcp_done⟩ tcp out := by
    intro data hdata hdata_len hnot_tcp hnot_udp
    rw [hdata, Option.getD_some] at hcontents₁
    obtain ⟨rb₂, hcopy, hvalid₂, hcontents₂⟩ := copy_from_front hvalid₁ hcontents₁ rfl
    refine ⟨rb₂, ?_, htake rb₂ hvalid₂ hcontents₂⟩
    simp only [packet_buffer_to_buffer, hpos, if_false, hheader, leValue_len hlt, htcp, hudp, hnot_tcp,
      hnot_udp]
    simp only [hdata_len, hcopy, to_int_packet (hlen data hdata)]
  cases f with
  | tcp p => exact hpacket p.data rfl rfl (by simp) (by simp)
  | other data => exact hpacket data rfl rfl (by simp) (by simp)
  | tcp_done =>
    refine ⟨rb₁, ?_, htake rb₁ hvalid₁ hcontents₁⟩
    simp only [packet_buffer_to_buffer, hpos, if_false, hheader, leValue_len hlt, htcp, if_true, read_result]
    split <;> rfl
  | udp_done =>
    refine ⟨rb₁, ?_, htake rb₁ hvalid₁ hcontents₁⟩
    simp only [packet_buffer_to_buffer, hpos, if_false, hheader, leValue_len hlt, htcp, hudp, reduceCtorEq,
      if_true, read_result]
    split <;> rfl

/-- A reader that finds the ring filled gets the oldest packet, or takes a flag out. -/
theorem Represents.read_frame {f : frame} (hs : Represents s tcps (f :: out))
    (hpos : ¬ to_int (ringbuf_bytes_used s.outgoing_buffer) ≤ 0) :
    Represents (packet_buffer_to_buffer s).2.2 tcps out ∧
      match f.packet with
      | some data => (packet_buffer_to_buffer s).1 = data.length ∧ (packet_buffer_to_buffer s).2.1 = data
      | none => (packet_buffer_to_buffer s).1 ≤ 0 := by
  obtain ⟨outgoing, hread, hholds⟩ := hs.holds.read_frame hpos
  rw [hread]
  refine ⟨(hholds _ _).represents hs.tcp_len, ?_⟩
  cases f with
  | tcp p => exact ⟨rfl, rfl⟩
  | other data => exact ⟨rfl, rfl⟩
  | tcp_done =>
    simp only [frame.packet, read_result]
    split <;> simp
  | udp_done =>
    simp only [frame.packet, read_result]
    split <;> simp

/-- The connection that a dump looks at through the tail pointer. -/
theorem Holds.oldest_con {con : con_id_type} {rest : List UInt8} (hs : Holds s (con.bytes ++ rest) out)
    (hheader : s.tcp_buffer.tail + 16 ≤ s.tcp_buffer.size) :
    con_id_type.read s.tcp_buffer.buf s.tcp_buffer.tail = con ∧ ringbuf_bytes_used s.tcp_buffer ≠ 0 := by
  have hused : 16 ≤ ringbuf_bytes_used s.tcp_buffer := by
    rw [← contents_length, hs.tcp_contents]
    simp
  have hload := load_tail hused hheader
  rw [hs.tcp_contents, List.take_left' (by simp)] at hload
  exact ⟨con_id_type.read_of_load hload, by omega⟩

/-- A dump that finds the no-op entry leaves it where it is and puts a flag into the outgoing ring. -/
theorem Holds.dump_no_op {con : con_id_type} {rest : List UInt8} (hs : Holds s (con.bytes ++ rest) out)
    (hheader : s.tcp_buffer.tail + 16 ≤ s.tcp_buffer.size) (hno_op : is_no_op con = true)
    (hroom : 8 ≤ ringbuf_bytes_free s.outgoing_buffer) (check_block : UInt32 → con_id_type → Bool) :
    ∃ outgoing, (dump_tcp_buffer s check_block).2 = { s with outgoing_buffer := outgoing } ∧
      Holds { s with outgoing_buffer := outgoing } (con.bytes ++ rest) (out ++ [.tcp_done]) := by
  obtain ⟨hcon, hused⟩ := hs.oldest_con hheader
  obtain ⟨hvalid, hcontents, -⟩ := memcpy_into_spec (leBytes 8 TCP_DONE_FLAG) hs.out_valid (by simpa using hroom)
  refine ⟨_, ?_, hs.put (f := .tcp_done) hvalid (by rw [hcontents]; rfl) (by simp [frame.packet])⟩
  simp [dump_tcp_buffer, hused, hcon, hno_op]

/-- The record that a dump looks at through the tail pointer. -/
theorem Holds.oldest {p : tcp_packet} {rest : List UInt8} (hs : Holds s (p.bytes ++ rest) out)
    (hlen : PacketLen p.data) (hheader : s.tcp_buffer.tail + 28 ≤ s.tcp_buffer.size) :
    con_id_type.read s.tcp_buffer.buf s.tcp_buffer.tail = p.con_id ∧
      loadU32 s.tcp_buffer.buf (s.tcp_buffer.tail + 16) = p.ack ∧
      leValue (load s.tcp_buffer.buf (s.tcp_buffer.tail + 20) 8) = p.data.length := by
  have hcontents : contents s.tcp_buffer =
      (p.con_id.bytes ++ (leBytes 4 p.ack.toNat ++ leBytes 8 p.data.length)) ++ (p.data ++ rest) := by
    simp [hs.tcp_contents, tcp_packet.bytes]
  have hused : 28 ≤ ringbuf_bytes_used s.tcp_buffer := by
    rw [← contents_length, hcontents]
    simp only [List.length_append, con_id_type.bytes_length, leBytes_length]
    omega
  have hload := load_tail hused hheader
  have hsplit : load s.tcp_buffer.buf s.tcp_buffer.tail 28 =
      load s.tcp_buffer.buf s.tcp_buffer.tail 16 ++ (load s.tcp_buffer.buf (s.tcp_buffer.tail + 16) 4 ++
        load s.tcp_buffer.buf (s.tcp_buffer.tail + 20) 8) := by
    rw [← load_append _ (s.tcp_buffer.tail + 16) 4 8, ← load_append _ s.tcp_buffer.tail 16 12]
  rw [hsplit, hcontents, List.take_left' (by simp)] at hload
  obtain ⟨hcon, hload⟩ := List.append_inj hload (by simp)
  obtain ⟨hack, hdata⟩ := List.append_inj hload (by simp)
  have hsmall := hlen.2
  exact ⟨con_id_type.read_of_load hcon, loadU32_of_load hack, by rw [hdata, leValue_len (by omega)]⟩

theorem Represents.oldest {p : tcp_packet} (hs : Represents s (p :: tcps) out)
    (hheader : s.tcp_buffer.tail + 28 ≤ s.tcp_buffer.size) :
    con_id_type.read s.tcp_buffer.buf s.tcp_buffer.tail = p.con_id ∧
      loadU32 s.tcp_buffer.buf (s.tcp_buffer.tail + 16) = p.ack ∧
      leValue (load s.tcp_buffer.buf (s.tcp_buffer.tail + 20) 8) = p.data.length :=
  hs.holds.oldest (hs.tcp_len p (by simp)) hheader

/-- A dump that is not blocked moves the oldest packet to the outgoing ring. -/
theorem Holds.move {p : tcp_packet} {rest : List UInt8} (hs : Holds s (p.bytes ++ rest) out)
    (hlen : PacketLen p.data) {check_block : UInt32 → con_id_type → Bool}
    (hheader : s.tcp_buffer.tail + 28 ≤ s.tcp_buffer.size) (hno_op : is_no_op p.con_id = false)
    (hanswer : check_block p.ack p.con_id = false)
    (hroom : 8 + p.data.length ≤ ringbuf_bytes_free s.outgoing_buffer) :
    ∃ tcp_buffer outgoing_buffer, (dump_tcp_buffer s check_block).2 =
        { s with tcp_buffer := tcp_buffer, outgoing_buffer := outgoing_buffer } ∧
      Holds { s with tcp_buffer := tcp_buffer, outgoing_buffer := outgoing_buffer } rest
        (out ++ [.tcp p]) := by
  obtain ⟨hcon, hack, -⟩ := hs.oldest hlen hheader
  have hcontents : contents s.tcp_buffer =
      p.con_id.bytes ++ (leBytes 4 p.ack.toNat ++ (leBytes 8 p.data.length ++ (p.data ++ rest))) := by
    simp [hs.tcp_contents, tcp_packet.bytes]
  have hused : ringbuf_bytes_used s.tcp_buffer ≠ 0 := by
    rw [← contents_length, hcontents]
    simp
  obtain ⟨rb₁, hcopy₁, hvalid₁, hcontents₁⟩ := copy_from_front (n := 16) hs.tcp_valid hcontents (by simp)
  obtain ⟨rb₂, hcopy₂, hvalid₂, hcontents₂⟩ := copy_from_front (n := 4) hvalid₁ hcontents₁ (by simp)
  obtain ⟨rb₃, hcopy₃, hvalid₃, hcontents₃⟩ := copy_from_front (n := 8) hvalid₂ hcontents₂ (by simp)
  obtain ⟨rb₄, hcopy₄, hvalid₄, hcontents₄⟩ := copy_from_front hvalid₃ hcontents₃ rfl
  have hvalue : leValue (leBytes 8 p.data.length) = p.data.length := by
    have hsmall := hlen.2
    exact leValue_len (by omega)
  obtain ⟨hvalid, hout, -⟩ := into_into (leBytes 8 p.data.length) p.data hs.out_valid (by simpa using hroom)
  have hput := hs.put (f := .tcp p) hvalid hout fun data hdata => Option.some.inj hdata ▸ hlen
  refine ⟨_, _, ?_, hvalid₄, hput.out_valid, hcontents₄, hput.out_contents, hput.out_len⟩
  simp only [dump_tcp_buffer, hused, if_false, hcon, hno_op, hack, hanswer, hcopy₁, hcopy₂, hcopy₃, hvalue,
    hcopy₄, Bool.false_eq_true]

theorem Represents.move {p : tcp_packet} (hs : Represents s (p :: tcps) out)
    {check_block : UInt32 → con_id_type → Bool}
    (hheader : s.tcp_buffer.tail + 28 ≤ s.tcp_buffer.size) (hno_op : is_no_op p.con_id = false)
    (hanswer : check_block p.ack p.con_id = false)
    (hroom : 8 + p.data.length ≤ ringbuf_bytes_free s.outgoing_buffer) :
    Represents (dump_tcp_buffer s check_block).2 tcps (out ++ [.tcp p]) := by
  obtain ⟨tcp_buffer, outgoing_buffer, hdump, hholds⟩ :=
    hs.holds.move (hs.tcp_len p (by simp)) hheader hno_op hanswer hroom
  rw [hdump]
  exact hholds.represents fun q hq => hs.tcp_len q (by simp [hq])

end operations
end packet_buffer
