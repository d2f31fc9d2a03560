import ReliableSocket.PacketBuffer

/-! # Headers of the frames

The frames of the tap device begin with a header of its own, of 10 bytes. The Ethernet, IP and TCP
headers stand behind it; their numbers are in network order. -/

open memory packet_buffer

namespace headers

def MSG_OFF : Nat := 10

/-- `sizeof(struct ether_header)`. -/
def ETH_HDR_LEN : Nat := 14

def IP_OFFSET : Nat := MSG_OFF + ETH_HDR_LEN

/-- The value of `ether_type` for IPv4, as the code compares it. -/
def ETHERTYPE_IPV4 : UInt16 := 0x0008

def IPPROTO_TCP : UInt8 := 6
def TH_SYN : UInt8 := 2

/-- The 16 and 32 bits with their bytes in the other order. -/
def ntohs (x : UInt16) : UInt16 := UInt16.ofNat (256 * (x.toNat % 256) + x.toNat / 256)
def ntohl (x : UInt32) : UInt32 := UInt32.ofNat (leValue (leBytes 4 x.toNat).reverse)

section fields

variable (m : Mem)

def ether_type : UInt16 := loadU16 m (MSG_OFF + 12)

def ip_hl : UInt8 := m IP_OFFSET &&& 0x0F
def ip_len : UInt16 := loadU16 m (IP_OFFSET + 2)
def ip_p : UInt8 := m (IP_OFFSET + 9)
def ip_src : UInt32 := loadU32 m (IP_OFFSET + 12)
def ip_dst : UInt32 := loadU32 m (IP_OFFSET + 16)

def ip_header_size : Nat := 4 * (ip_hl m).toNat

/-- Where the TCP header stands, which the IP header says. -/
def tcp_offset : Nat := IP_OFFSET + ip_header_size m

def th_sport : UInt16 := loadU16 m (tcp_offset m)
def th_dport : UInt16 := loadU16 m (tcp_offset m + 2)
def th_seq : UInt32 := loadU32 m (tcp_offset m + 4)
def th_ack : UInt32 := loadU32 m (tcp_offset m + 8)
def th_off : UInt8 := m (tcp_offset m + 12) >>> 4
def th_flags : UInt8 := m (tcp_offset m + 13)

def tcp_header_size : Nat := 4 * (th_off m).toNat

end fields

theorem ip_header_size_le (m : Mem) : ip_header_size m ≤ 60 := by
  have hle : (ip_hl m).toNat ≤ 15 := by
    rw [ip_hl, UInt8.toNat_and]
    exact Nat.and_le_right
  unfold ip_header_size
  omega

theorem tcp_header_size_le (m : Mem) : tcp_header_size m ≤ 60 := by
  have hlt := (m (tcp_offset m + 12)).toNat_lt
  have hle : (th_off m).toNat ≤ 15 := by
    rw [th_off, UInt8.toNat_shiftRight, Nat.shiftRight_eq_div_pow]
    have hfour : (4 : UInt8).toNat % 8 = 4 := rfl
    rw [hfour]
    omega
  unfold tcp_header_size
  omega

/-- The four numbers that name a connection. -/
structure four_tuple where
  src_ip : UInt32
  src_port : UInt16
  dst_ip : UInt32
  dst_port : UInt16
deriving DecidableEq, Repr

/-- The connection as seen from the other end. -/
def four_tuple.reverse (t : four_tuple) : four_tuple := ⟨t.dst_ip, t.dst_port, t.src_ip, t.src_port⟩

/-- A connection identifier whose fields are assigned; the gaps hold what they held before. -/
def four_tuple.con_id (t : four_tuple) (pad_0 pad_1 : UInt16) : con_id_type where
  src_ip := t.src_ip
  src_port := t.src_port
  pad_0 := pad_0
  dst_ip := t.dst_ip
  dst_port := t.dst_port
  pad_1 := pad_1

def tuple_of (con : con_id_type) : four_tuple := ⟨con.src_ip, con.src_port, con.dst_ip, con.dst_port⟩

/-- The connection of a frame, from its source to its destination. -/
def frame_tuple (m : Mem) : four_tuple := ⟨ip_src m, th_sport m, ip_dst m, th_dport m⟩

/-- Keys built for two connections are compared with their gaps. -/
theorem con_id_bytes_inj {t t' : four_tuple} {pad_0 pad_1 pad_0' pad_1' : UInt16}
    (heq : (t.con_id pad_0 pad_1).bytes = (t'.con_id pad_0' pad_1').bytes) :
    t = t' ∧ pad_0 = pad_0' ∧ pad_1 = pad_1' := by
  have hcon := con_id_type.bytes_inj heq
  exact ⟨congrArg tuple_of hcon, congrArg con_id_type.pad_0 hcon, congrArg con_id_type.pad_1 hcon⟩

end headers
