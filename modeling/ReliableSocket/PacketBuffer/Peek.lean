import ReliableSocket.PacketBuffer

open memory ringbuf run

namespace packet_buffer

/-- What `dump_tcp_buffer` looks at through the tail pointer: the connection and, unless it is the no-op
    entry, the ACK behind it. -/
def peek (m : Mem) (tail : Nat) : con_id_type × Option UInt32 :=
  let con := con_id_type.read m tail
  (con, if is_no_op con then none else some (loadU32 m (tail + 16)))

/-- What `ringbuf_memcpy_from` would return for the same two fields of the oldest record, if there are
    so many bytes. -/
def oldest_header (rb : ringbuf_t) : Option (con_id_type × Option UInt32) :=
  match ringbuf_memcpy_from rb 16 with
  | none => none
  | some (con_id, rest) =>
    let con := con_id_type.read (store (fun _ => 0) 0 con_id) 0
    if is_no_op con then some (con, none)
    else (ringbuf_memcpy_from rest 4).map fun ack => (con, some (UInt32.ofNat (leValue ack.1)))

/-- The number of bytes of the inspected fields: the no-op entry has no ACK. -/
def header_size (header : con_id_type × Option UInt32) : Nat := if header.2.isSome then 20 else 16

/-- The pointer sees what the ring holds, whatever stands in the memory behind the ring. -/
def PeekAgrees (rb : ringbuf_t) : Prop :=
  ∀ header, oldest_header rb = some header →
    ∀ m : Mem, (∀ p < rb.size, m p = rb.buf p) → peek m rb.tail = header

/-- The calls that change the TCP ring. -/
inductive tcp_call where
  | write_to_tcp_buffer (con : con_id_type) (ack : UInt32) (buffer : List UInt8)
  | append_no_op
  | dump_tcp_buffer (check_block : UInt32 → con_id_type → Bool)

def tcp_step (s : packet_buffer_t) : tcp_call → packet_buffer_t
  | .write_to_tcp_buffer con ack buffer => write_to_tcp_buffer s con ack buffer
  | .append_no_op => append_no_op s
  | .dump_tcp_buffer check_block => (dump_tcp_buffer s check_block).2

/-- A ring of the size of the TCP ring whose pointers are inside its memory. -/
structure TcpRing (rb : ringbuf_t) : Prop where
  valid : Valid rb
  size : rb.size = TCP_BUFFER_SIZE + 1

section peek

variable {s : packet_buffer_t} {rb : ringbuf_t}

theorem TcpRing.into (hrb : TcpRing rb) (bs : List UInt8) : TcpRing (ringbuf_memcpy_into rb bs) := by
  obtain ⟨hvalid, hsize⟩ := hrb.valid.memcpy_into bs
  exact ⟨hvalid, hsize.trans hrb.size⟩

theorem TcpRing.from (hrb : TcpRing rb) (count : Nat) : TcpRing (copy_from rb count).2 := by
  obtain ⟨hvalid, hsize, -⟩ := copy_from_valid hrb.valid count
  exact ⟨hvalid, hsize.trans hrb.size⟩

/-- A dump leaves the TCP ring alone or takes bytes out of it. -/
theorem dump_tcp_cases (s : packet_buffer_t) (check_block : UInt32 → con_id_type → Bool) :
    (dump_tcp_buffer s check_block).2.tcp_buffer = s.tcp_buffer ∨
      ∃ n, (dump_tcp_buffer s check_block).2.tcp_buffer =
        (copy_from (copy_from (copy_from (copy_from s.tcp_buffer 16).2 4).2 8).2 n).2 := by
  simp only [dump_tcp_buffer]
  split
  · exact .inl rfl
  split
  · exact .inl rfl
  split
  · exact .inl rfl
  · right
    dsimp only
    exact ⟨_, rfl⟩

theorem TcpRing.step (hs : TcpRing s.tcp_buffer) (call : tcp_call) : TcpRing (tcp_step s call).tcp_buffer := by
  cases call with
  | write_to_tcp_buffer con ack buffer =>
    simp only [tcp_step, write_to_tcp_buffer]
    exact (((hs.into _).into _).into _).into _
  | append_no_op =>
    simp only [tcp_step, append_no_op]
    exact hs.into _
  | dump_tcp_buffer check_block =>
    rw [tcp_step]
    obtain hsame | ⟨n, hcopies⟩ := dump_tcp_cases s check_block
    · rw [hsame]
      exact hs
    · rw [hcopies]
      exact (((hs.from 16).from 4).from 8).from n

theorem tcp_ring_run (outgoing tcp : Mem) (calls : List tcp_call) :
    TcpRing (steps tcp_step (init_packet_buffer outgoing tcp) calls).tcp_buffer :=
  steps_invariant (fun (s : packet_buffer_t) call (hs : TcpRing s.tcp_buffer) => hs.step call)
    ⟨valid_new _ _, rfl⟩ calls

/-- The fields that the reader returns are the first bytes of the contents. -/
theorem oldest_header_bytes (hrb : Valid rb) {header : con_id_type × Option UInt32}
    (hheader : oldest_header rb = some header) :
    header_size header ≤ ringbuf_bytes_used rb ∧
      header.1.bytes = (contents rb).take 16 ∧
      is_no_op header.1 = header.2.isNone ∧
      ∀ ack, header.2 = some ack → leBytes 4 ack.toNat = ((contents rb).drop 16).take 4 := by
  have henough : 16 ≤ ringbuf_bytes_used rb := by
    by_contra hnot
    simp [oldest_header, ringbuf_memcpy_from, show 16 > ringbuf_bytes_used rb by omega] at hheader
  obtain ⟨rest, hcopy, hvalid, hcontents, -⟩ := memcpy_from_spec hrb henough
  have hlength : ((contents rb).take 16).length = 16 := by
    rw [List.length_take, contents_length]
    omega
  have hcon := con_id_type.bytes_read (store (fun _ => 0) 0 ((contents rb).take 16)) 0
  rw [load_store hlength] at hcon
  simp only [oldest_header, hcopy] at hheader
  split at hheader
  · rename_i hno_op
    obtain rfl := Option.some.inj hheader
    exact ⟨henough, hcon, hno_op, fun ack hack => by cases hack⟩
  · rename_i hno_op
    obtain ⟨⟨bs, rb'⟩, hack, rfl⟩ := Option.map_eq_some_iff.mp hheader
    have hmore : 4 ≤ ringbuf_bytes_used rest := by
      by_contra hnot
      simp [ringbuf_memcpy_from, show 4 > ringbuf_bytes_used rest by omega] at hack
    obtain ⟨rest', hcopy', -⟩ := memcpy_from_spec hvalid hmore
    rw [hcopy', hcontents, Option.some.injEq, Prod.mk.injEq] at hack
    obtain ⟨rfl, -⟩ := hack
    have hused := contents_length rest
    rw [hcontents, List.length_drop, contents_length] at hused
    refine ⟨by simp only [header_size, Option.isSome_some, if_true]; omega, hcon,
      Bool.eq_false_iff.mpr hno_op, fun ack hack => ?_⟩
    obtain rfl := Option.some.inj hack
    have hack_length : (((contents rb).drop 16).take 4).length = 4 := by
      rw [List.length_take, List.length_drop, contents_length]
      omega
    have hlt := leValue_lt (((contents rb).drop 16).take 4)
    have hbytes := leBytes_leValue (((contents rb).drop 16).take 4)
    rw [hack_length] at hlt hbytes
    rw [UInt32.toNat_ofNat', Nat.mod_eq_of_lt (by omega), hbytes]

/-- A header that does not go past the end of the ring is seen as it is. -/
theorem peek_of_fits (hrb : Valid rb) {header : con_id_type × Option UInt32}
    (hheader : oldest_header rb = some header) (hfits : rb.tail + header_size header ≤ rb.size)
    {m : Mem} (hm : ∀ p < rb.size, m p = rb.buf p) : peek m rb.tail = header := by
  obtain ⟨hused, hcon, hno_op, hack⟩ := oldest_header_bytes hrb hheader
  have hload : ∀ n ≤ header_size header, load m rb.tail n = (contents rb).take n := by
    intro n hn
    rw [← load_tail (Nat.le_trans hn hused) (by omega)]
    exact load_congr fun b _ hhigh => hm b (by omega)
  have hsixteen : 16 ≤ header_size header := by
    unfold header_size
    split <;> omega
  have hread : con_id_type.read m rb.tail = header.1 :=
    con_id_type.read_of_load ((hload 16 hsixteen).trans hcon.symm)
  obtain ⟨con, ack⟩ := header
  cases ack with
  | none => simp_all [peek]
  | some ack =>
    have htwenty := hload 20 (Nat.le_refl 20)
    rw [load_append m rb.tail 16 4, hload 16 hsixteen, List.take_add (i := 16) (j := 4)] at htwenty
    have hload_ack := List.append_cancel_left htwenty
    have hack_eq : loadU32 m (rb.tail + 16) = ack :=
      loadU32_of_load (hload_ack.trans (hack ack rfl).symm)
    simp_all [peek]

/-- A byte of the header behind the end of the ring is not the ring's. -/
theorem fits_of_peek (hrb : Valid rb) {header : con_id_type × Option UInt32}
    (hheader : oldest_header rb = some header)
    (hpeek : ∀ m : Mem, (∀ p < rb.size, m p = rb.buf p) → peek m rb.tail = header) :
    rb.tail + header_size header ≤ rb.size := by
  by_contra hnot
  obtain ⟨-, -, hno_op, -⟩ := oldest_header_bytes hrb hheader
  -- Two memories that differ in the last byte of the header only.
  generalize hlast : rb.tail + header_size header - 1 = last at *
  have hsame : ∀ v : UInt8, peek (store rb.buf last [v]) rb.tail = header := fun v =>
    hpeek _ fun p hp => store_outside (.inl (by omega))
  have hdiffer : store rb.buf last [0] last ≠ store rb.buf last [1] last := by
    rw [store_cons_at, store_cons_at]
    decide
  have hboth := (hsame 0).trans (hsame 1).symm
  have hcon : con_id_type.read (store rb.buf last [0]) rb.tail =
      con_id_type.read (store rb.buf last [1]) rb.tail := congrArg Prod.fst hboth
  have hcons : con_id_type.read (store rb.buf last [0]) rb.tail = header.1 := congrArg Prod.fst (hsame 0)
  cases hack : header.2 with
  | none =>
    rw [header_size, hack] at hlast
    refine hdiffer (eq_of_load_eq (con_id_type.load_of_read_eq hcon) ?_ ?_) <;>
      simp only [Option.isSome_none, Bool.false_eq_true, if_false] at hlast <;> omega
  | some ack =>
    rw [header_size, hack] at hlast
    have hacks : loadU32 (store rb.buf last [0]) (rb.tail + 16) =
        loadU32 (store rb.buf last [1]) (rb.tail + 16) := by
      rw [hack] at hno_op
      have hsecond := congrArg Prod.snd hboth
      simp only [peek, ← hcon, hcons, hno_op, Option.isNone_some, Bool.false_eq_true, if_false,
        Option.some.injEq] at hsecond
      exact hsecond
    refine hdiffer (eq_of_load_eq (load_of_loadU32_eq hacks) ?_ ?_) <;>
      simp only [Option.isSome_some, if_true] at hlast <;> omega

end peek

/-- In every state that writes and dumps reach, the pointer sees the oldest header exactly when the
    header ends before the end of the ring. -/
theorem peek_agrees_iff (outgoing tcp : Mem) (calls : List tcp_call) :
    PeekAgrees (steps tcp_step (init_packet_buffer outgoing tcp) calls).tcp_buffer ↔
      ∀ header, oldest_header (steps tcp_step (init_packet_buffer outgoing tcp) calls).tcp_buffer = some header →
        (steps tcp_step (init_packet_buffer outgoing tcp) calls).tcp_buffer.tail + header_size header ≤
          TCP_BUFFER_SIZE + 1 := by
  obtain ⟨hvalid, hsize⟩ := tcp_ring_run outgoing tcp calls
  rw [← hsize]
  constructor
  · exact fun h header hheader => fits_of_peek hvalid hheader (h header hheader)
  · exact fun h header hheader m hm => peek_of_fits hvalid hheader (h header hheader) hm

/-- What a dump leaves of the pointers and sizes. -/
theorem dump_keeps {s : packet_buffer_t} (htcp : Valid s.tcp_buffer) (hout : Valid s.outgoing_buffer)
    (check_block : UInt32 → con_id_type → Bool) :
    (dump_tcp_buffer s check_block).2.tcp_buffer.head = s.tcp_buffer.head ∧
      (dump_tcp_buffer s check_block).2.tcp_buffer.size = s.tcp_buffer.size ∧
      (dump_tcp_buffer s check_block).2.outgoing_buffer.size = s.outgoing_buffer.size := by
  have hsizes : ∀ bs cs, (ringbuf_memcpy_into (ringbuf_memcpy_into s.outgoing_buffer bs) cs).size =
      s.outgoing_buffer.size := by
    intro bs cs
    obtain ⟨hvalid, hsize⟩ := hout.memcpy_into bs
    exact (hvalid.memcpy_into cs).2.trans hsize
  have htake : (dump_tcp_buffer s check_block).2.tcp_buffer.head = s.tcp_buffer.head ∧
      (dump_tcp_buffer s check_block).2.tcp_buffer.size = s.tcp_buffer.size := by
    obtain hsame | ⟨n, hcopies⟩ := dump_tcp_cases s check_block
    · rw [hsame]
      exact ⟨rfl, rfl⟩
    · obtain ⟨hvalid₁, hsize₁, hhead₁⟩ := copy_from_valid htcp 16
      obtain ⟨hvalid₂, hsize₂, hhead₂⟩ := copy_from_valid hvalid₁ 4
      obtain ⟨hvalid₃, hsize₃, hhead₃⟩ := copy_from_valid hvalid₂ 8
      obtain ⟨-, hsize₄, hhead₄⟩ := copy_from_valid hvalid₃ n
      rw [hcopies, hhead₄, hhead₃, hhead₂, hhead₁, hsize₄, hsize₃, hsize₂, hsize₁]
      exact ⟨rfl, rfl⟩
  refine ⟨htake.1, htake.2, ?_⟩
  simp only [dump_tcp_buffer]
  split
  · rfl
  split
  · dsimp only
    exact (hout.memcpy_into _).2
  split
  · rfl
  · dsimp only
    exact hsizes _ _

def never_blocks : UInt32 → con_id_type → Bool := fun _ _ => false

/-- A packet whose record has 64 bytes. -/
def small_packet : tcp_packet := ⟨⟨1, 80, 0, 2, 81, 0⟩, 7, List.replicate 36 0⟩

/-- The packet is written and dumped so many times. -/
def small_packets : Nat → List tcp_call
  | 0 => []
  | k + 1 => small_packets k ++
    [.write_to_tcp_buffer small_packet.con_id small_packet.ack small_packet.data,
      .dump_tcp_buffer never_blocks]

/-- After so many packets the TCP ring is empty again, and its tail has moved by as many records. -/
structure SmallPackets (k : Nat) (s : packet_buffer_t) : Prop where
  holds : Holds s [] (List.replicate k (.tcp small_packet))
  tail : s.tcp_buffer.tail = 64 * k
  tcp_size : s.tcp_buffer.size = TCP_BUFFER_SIZE + 1
  out_size : s.outgoing_buffer.size = OUTGOING_BUFFER_SIZE + 1

theorem SmallPackets.write {k : Nat} {s : packet_buffer_t} (hs : SmallPackets k s) :
    Holds (write_to_tcp_buffer s small_packet.con_id small_packet.ack small_packet.data) small_packet.bytes
        (List.replicate k (.tcp small_packet)) ∧
      (write_to_tcp_buffer s small_packet.con_id small_packet.ack small_packet.data).tcp_buffer.tail =
        64 * k ∧
      (write_to_tcp_buffer s small_packet.con_id small_packet.ack small_packet.data).tcp_buffer.size =
        TCP_BUFFER_SIZE + 1 := by
  have hfree := hs.holds.tcp_valid.bytes.2
  rw [← contents_length, hs.holds.tcp_contents, hs.tcp_size] at hfree
  have hroom : 28 + small_packet.data.length ≤ ringbuf_bytes_free s.tcp_buffer := by
    unfold TCP_BUFFER_SIZE at hfree
    simp only [small_packet, List.length_replicate, List.length_nil] at hfree ⊢
    omega
  obtain ⟨hholds, htail⟩ := hs.holds.write_to_tcp_buffer hroom
  have hring := TcpRing.step (s := s) ⟨hs.holds.tcp_valid, hs.tcp_size⟩
    (.write_to_tcp_buffer small_packet.con_id small_packet.ack small_packet.data)
  exact ⟨by simpa using hholds, htail.trans hs.tail, hring.size⟩

/-- The rings have room for the packet until the tail comes to the end of the TCP ring. -/
theorem SmallPackets.next {k : Nat} {s : packet_buffer_t} (hs : SmallPackets k s) (hk : k < 80000000) :
    SmallPackets (k + 1) (dump_tcp_buffer
      (write_to_tcp_buffer s small_packet.con_id small_packet.ack small_packet.data) never_blocks).2 := by
  obtain ⟨hholds, htail, hsize⟩ := hs.write
  generalize hs₁ : write_to_tcp_buffer s small_packet.con_id small_packet.ack small_packet.data = s₁ at *
  have hout : s₁.outgoing_buffer = s.outgoing_buffer := by
    rw [← hs₁]
    simp only [write_to_tcp_buffer]
  have hfree := hholds.out_valid.bytes.2
  have hlength : (contents s₁.outgoing_buffer).length = 44 * k := by
    rw [hholds.out_contents, List.map_replicate, List.length_flatten, List.map_replicate,
      List.sum_replicate_nat, Nat.mul_comm]
    rfl
  rw [← contents_length, hlength, hout, hs.out_size] at hfree
  obtain ⟨hhead, htcp_size, hout_size⟩ := dump_keeps hholds.tcp_valid hholds.out_valid never_blocks
  have hrest := hholds
  rw [← List.append_nil small_packet.bytes] at hrest
  have hheader : s₁.tcp_buffer.tail + 28 ≤ s₁.tcp_buffer.size := by
    rw [htail, hsize]
    unfold TCP_BUFFER_SIZE
    omega
  have hroom : 8 + small_packet.data.length ≤ ringbuf_bytes_free s₁.outgoing_buffer := by
    rw [hout]
    unfold OUTGOING_BUFFER_SIZE at hfree
    simp only [small_packet, List.length_replicate]
    omega
  have hanswer : never_blocks small_packet.ack small_packet.con_id = false := rfl
  obtain ⟨tcp_buffer, outgoing_buffer, hdump, hmoved⟩ :=
    hrest.move (by decide) hheader (by decide) hanswer hroom
  rw [← hdump] at hmoved
  -- The ring is empty, so the tail has come to the head, which was 64 bytes ahead.
  have hempty : ringbuf_bytes_used (dump_tcp_buffer s₁ never_blocks).2.tcp_buffer = 0 := by
    rw [← contents_length, hmoved.tcp_contents]
    rfl
  have hhead₁ := hholds.tcp_valid.head_eq
  rw [← contents_length, hholds.tcp_contents, htail, hsize] at hhead₁
  have hhead₂ := hmoved.tcp_valid.head_eq
  rw [hempty, Nat.add_zero, Nat.mod_eq_of_lt hmoved.tcp_valid.tail_lt, hhead, hhead₁,
    Nat.mod_eq_of_lt (by unfold TCP_BUFFER_SIZE; simp [small_packet, tcp_packet.bytes]; omega)] at hhead₂
  refine ⟨?_, ?_, htcp_size.trans hsize, hout_size.trans (hout ▸ hs.out_size)⟩
  · rw [List.replicate_succ']
    exact hmoved
  · rw [← hhead₂]
    simp [small_packet, tcp_packet.bytes]
    omega

theorem small_packets_run {k : Nat} (hk : k ≤ 80000000) :
    SmallPackets k (steps tcp_step (init_packet_buffer (fun _ => 0) (fun _ => 0)) (small_packets k)) := by
  induction k with
  | zero => exact ⟨(represents_init _ _).holds, rfl, rfl, rfl⟩
  | succ k ih =>
    have hnext := (ih (by omega)).next (by omega)
    rw [small_packets, steps, List.foldl_append]
    exact hnext

/-- The fields of a record at the front of the ring. -/
theorem oldest_header_of_contents {rb : ringbuf_t} {p : tcp_packet} {rest : List UInt8} (hrb : Valid rb)
    (hcontents : contents rb = p.bytes ++ rest) (hno_op : is_no_op p.con_id = false) :
    oldest_header rb = some (p.con_id, some p.ack) := by
  have hfront : contents rb =
      p.con_id.bytes ++ (leBytes 4 p.ack.toNat ++ (leBytes 8 p.data.length ++ (p.data ++ rest))) := by
    simp [hcontents, tcp_packet.bytes]
  have hused := contents_length rb
  rw [hfront] at hused
  simp only [List.length_append, con_id_type.bytes_length, leBytes_length] at hused
  obtain ⟨rb₁, hcopy₁, hvalid₁, hcontents₁, -⟩ := memcpy_from_spec hrb (show 16 ≤ _ by omega)
  rw [hfront, List.take_left' (by simp)] at hcopy₁
  rw [hfront, List.drop_left' (by simp)] at hcontents₁
  have hused₁ := contents_length rb₁
  rw [hcontents₁] at hused₁
  simp only [List.length_append, leBytes_length] at hused₁
  obtain ⟨rb₂, hcopy₂, -⟩ := memcpy_from_spec hvalid₁ (show 4 ≤ _ by omega)
  rw [hcontents₁, List.take_left' (by simp)] at hcopy₂
  have hread : con_id_type.read (store (fun _ => 0) 0 p.con_id.bytes) 0 = p.con_id :=
    con_id_type.read_of_load (load_store (con_id_type.bytes_length p.con_id))
  have hack : UInt32.ofNat (leValue (leBytes 4 p.ack.toNat)) = p.ack := by
    have hlt := p.ack.toNat_lt
    rw [leValue_leBytes, Nat.mod_eq_of_lt (by omega), UInt32.ofNat_toNat]
  simp [oldest_header, hcopy₁, hcopy₂, hread, hno_op, hack]

/-- Small packets until the tail stands on the last byte of the ring, and one more record. -/
def up_to_the_end : List tcp_call :=
  small_packets 80000000 ++
    [.write_to_tcp_buffer small_packet.con_id small_packet.ack small_packet.data]

theorem header_past_the_end :
    (steps tcp_step (init_packet_buffer (fun _ => 0) (fun _ => 0)) up_to_the_end).tcp_buffer.tail =
        TCP_BUFFER_SIZE ∧
      oldest_header (steps tcp_step (init_packet_buffer (fun _ => 0) (fun _ => 0)) up_to_the_end).tcp_buffer =
        some (small_packet.con_id, some 7) ∧
      ¬ PeekAgrees (steps tcp_step (init_packet_buffer (fun _ => 0) (fun _ => 0)) up_to_the_end).tcp_buffer := by
  have hrun := small_packets_run (Nat.le_refl 80000000)
  rw [up_to_the_end, steps_concat, tcp_step]
  generalize steps tcp_step (init_packet_buffer (fun _ => 0) (fun _ => 0)) (small_packets 80000000) = s at *
  obtain ⟨hholds, htail, hsize⟩ := hrun.write
  generalize write_to_tcp_buffer s small_packet.con_id small_packet.ack small_packet.data = s₁ at *
  have hheader : oldest_header s₁.tcp_buffer = some (small_packet.con_id, some 7) :=
    oldest_header_of_contents hholds.tcp_valid
      (hholds.tcp_contents.trans (List.append_nil _).symm) (by decide)
  refine ⟨htail, hheader, fun hagrees => ?_⟩
  have hfits := fits_of_peek hholds.tcp_valid hheader (hagrees _ hheader)
  rw [htail, hsize, header_size] at hfits
  unfold TCP_BUFFER_SIZE at hfits
  simp at hfits

end packet_buffer
