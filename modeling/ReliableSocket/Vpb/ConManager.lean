import Mathlib.Logic.Function.Basic
import ReliableSocket.Net.Headers
import ReliableSocket.Run
import ReliableSocket.Serial
import ReliableSocket.Table

open memory packet_buffer headers run serial

namespace host

structure con_isn_entry where
  con_id : con_id_type
  isn : UInt32
deriving DecidableEq, Repr

structure con_out_seq_entry where
  con_id : con_id_type
  seq : UInt32
deriving DecidableEq, Repr

/-- The tables of the connection manager on the host. -/
structure con_manager_t where
  con_isn_list : List con_isn_entry
  con_out_seq_list : List con_out_seq_entry
deriving DecidableEq, Repr

def con_manager_init : con_manager_t := ⟨[], []⟩

/-- The tables compare the 16 bytes of the structure. -/
def con_isn_entry.key (e : con_isn_entry) : List UInt8 := e.con_id.bytes
def con_out_seq_entry.key (e : con_out_seq_entry) : List UInt8 := e.con_id.bytes

def get_isn (c : con_manager_t) (con : con_id_type) : Option UInt32 :=
  (table.find con_isn_entry.key c.con_isn_list con.bytes).map con_isn_entry.isn

/-- A key for the outgoing sequence numbers, which is cleared before its fields are assigned. -/
def out_seq_key (t : four_tuple) : con_id_type := t.con_id 0 0

def put_out_seq (c : con_manager_t) (t : four_tuple) (seq : UInt32) : con_manager_t :=
  { c with
    con_out_seq_list := table.replace con_out_seq_entry.key c.con_out_seq_list ⟨out_seq_key t, seq⟩ }

def find_out_seq (c : con_manager_t) (t : four_tuple) : Option con_out_seq_entry :=
  table.find con_out_seq_entry.key c.con_out_seq_list (out_seq_key t).bytes

def flush_con_out_seq (c : con_manager_t) (server_con : con_id_type) : con_manager_t :=
  put_out_seq c (tuple_of server_con).reverse 0

def save_isn (c : con_manager_t) (isn : UInt32) (con : con_id_type) : con_manager_t :=
  let c := flush_con_out_seq c con
  { c with con_isn_list := table.replace con_isn_entry.key c.con_isn_list ⟨con, isn⟩ }

def get_con_out_seq (c : con_manager_t) (con_orig : con_id_type) : UInt32 :=
  match find_out_seq c (tuple_of con_orig) with
  | some entry => entry.seq
  | none => 0

/-- Only the greater number is kept. -/
def update_con_out_seq (c : con_manager_t) (seq : UInt32) (con_orig : con_id_type) : con_manager_t :=
  match find_out_seq c (tuple_of con_orig) with
  | some entry =>
    if entry.seq ≥ seq then c else put_out_seq c (tuple_of con_orig) seq
  | none => put_out_seq c (tuple_of con_orig) seq

/-- The local variable `con_id` is not cleared; `true` stands for 1. -/
def check_block (c : con_manager_t) (ack : UInt32) (con : con_id_type) (pad_0 pad_1 : UInt16) : Bool :=
  match get_isn c ((tuple_of con).reverse.con_id pad_0 pad_1) with
  | none => false
  | some _ => get_con_out_seq c con + 1 < ack

/-- The length of the payload, with the total length in a `short`. -/
def payload_length (buf : Mem) : Nat :=
  let ip_len : Int := (ntohs (ip_len buf)).toBitVec.toInt
  let payload_length := ip_len - ip_header_size buf - tcp_header_size buf
  if payload_length < 0 then 0 else payload_length.toNat

/-- The ISN that is reported to the guest. The variable keeps what it held if no ISN is found. The
    connection identifier was cleared before its fields were filled. -/
def handle_consensused_con (c : con_manager_t) (t : four_tuple) (isn : UInt32) : UInt32 :=
  (get_isn c (t.con_id 0 0)).getD isn

/-- What a turn of `watch_guest_out` passes to `update_con_out_seq`. The local variable `con_id` is not
    cleared. -/
def watch_guest_out (buf : Mem) (len : Int) (pad_0 pad_1 : UInt16) : Option (UInt32 × con_id_type) :=
  if len > ETH_HDR_LEN + MSG_OFF then
    if ether_type buf = ETHERTYPE_IPV4 then
      if ip_p buf = IPPROTO_TCP then
        some (ntohl (th_seq buf) + UInt32.ofNat (payload_length buf),
          (frame_tuple buf).reverse.con_id pad_0 pad_1)
      else none
    else none
  else none

/-- The sequence number behind the last byte of the segment in a frame. -/
def segment_end (buf : Mem) : UInt32 :=
  ntohl (th_seq buf) +
    UInt32.ofNat ((ntohs (ip_len buf)).toNat - ip_header_size buf - tcp_header_size buf)

/-- A total length from 32768 on is negative as a `short`, and then there is no payload. -/
theorem payload_length_eq (buf : Mem) :
    payload_length buf = if (ntohs (ip_len buf)).toNat < 2 ^ 15
      then (ntohs (ip_len buf)).toNat - ip_header_size buf - tcp_header_size buf else 0 := by
  have htotal := (ntohs (ip_len buf)).toNat_lt
  have hshort : (ntohs (ip_len buf)).toBitVec.toInt =
      if 2 * (ntohs (ip_len buf)).toNat < 2 ^ 16 then ((ntohs (ip_len buf)).toNat : Int)
      else ((ntohs (ip_len buf)).toNat : Int) - (2 ^ 16 : Nat) := BitVec.toInt_eq_toNat_cond _
  simp only [payload_length, hshort]
  generalize (ntohs (ip_len buf)).toNat = total at *
  by_cases hlt : total < 2 ^ 15
  · rw [if_pos hlt, if_pos (show 2 * total < 2 ^ 16 by omega)]
    split <;> omega
  · rw [if_neg hlt, if_neg (show ¬ 2 * total < 2 ^ 16 by omega), if_pos (by omega)]

/-- The end of an outgoing segment is passed on under its connection, seen from the other end, exactly
    when the total length of the packet is not negative as a `short`. -/
theorem outgoing_seq_iff (buf : Mem) (len : Int) (pad_0 pad_1 : UInt16)
    (hlen : len > ETH_HDR_LEN + MSG_OFF) (htype : ether_type buf = ETHERTYPE_IPV4)
    (hproto : ip_p buf = IPPROTO_TCP) :
    watch_guest_out buf len pad_0 pad_1 =
        some (segment_end buf, (frame_tuple buf).reverse.con_id pad_0 pad_1) ↔
      (ntohs (ip_len buf)).toNat < 2 ^ 15 := by
  have hip := ip_header_size_le buf
  have htcp := tcp_header_size_le buf
  have htotal := (ntohs (ip_len buf)).toNat_lt
  simp only [watch_guest_out, hlen, htype, hproto, if_true, segment_end, Option.some.injEq, Prod.mk.injEq,
    and_true, UInt32.add_right_inj]
  rw [payload_length_eq, ← UInt32.toNat_inj, UInt32.toNat_ofNat', UInt32.toNat_ofNat']
  constructor
  · intro heq
    by_contra hnot
    rw [if_neg hnot] at heq
    omega
  · intro hlt
    rw [if_pos hlt]

/-- A frame with a segment of the given total length, that begins at 1000. Both headers have 20
    bytes. -/
def segment_frame (high low : UInt8) : Mem :=
  store (fun _ => 0) 22 ([8, 0, 0x45, 0, high, low, 0, 0, 0, 0, 0, 6, 0, 0, 10, 22, 1, 100, 10, 22, 1, 7] ++
    [0, 80, 0x9C, 0x40, 0, 0, 3, 0xE8, 0, 0, 0, 0, 0x50, 0x10])

/-- A packet of 1500 bytes is counted, one of 40000 bytes is not. -/
theorem short_segment_is_counted :
    ntohs (ip_len (segment_frame 0x05 0xDC)) = 1500 ∧ segment_end (segment_frame 0x05 0xDC) = 2460 ∧
      watch_guest_out (segment_frame 0x05 0xDC) 1524 0 0 =
        some (2460, (frame_tuple (segment_frame 0x05 0xDC)).reverse.con_id 0 0) := by
  have hend : segment_end (segment_frame 0x05 0xDC) = 2460 := by decide +kernel
  have hwatch := (outgoing_seq_iff (segment_frame 0x05 0xDC) 1524 0 0 (by decide) (by decide +kernel)
    (by decide +kernel)).mpr (by decide +kernel)
  exact ⟨by decide +kernel, hend, hend ▸ hwatch⟩

theorem long_segment_is_not_counted :
    ntohs (ip_len (segment_frame 0x9C 0x40)) = 40000 ∧ segment_end (segment_frame 0x9C 0x40) = 40960 ∧
      watch_guest_out (segment_frame 0x9C 0x40) 2048 0 0 =
        some (1000, (frame_tuple (segment_frame 0x9C 0x40)).reverse.con_id 0 0) ∧
      watch_guest_out (segment_frame 0x9C 0x40) 2048 0 0 ≠
        some (segment_end (segment_frame 0x9C 0x40),
          (frame_tuple (segment_frame 0x9C 0x40)).reverse.con_id 0 0) := by
  decide +kernel

section tables

variable {c : con_manager_t} {t t' : four_tuple}

theorem out_seq_key_inj (heq : (out_seq_key t).bytes = (out_seq_key t').bytes) : t = t' :=
  (con_id_bytes_inj heq).1

theorem find_put_self (c : con_manager_t) (t : four_tuple) (seq : UInt32) :
    find_out_seq (put_out_seq c t seq) t = some ⟨out_seq_key t, seq⟩ :=
  table.find_replace_self c.con_out_seq_list ⟨out_seq_key t, seq⟩

theorem find_put_of_ne (hne : t ≠ t') (seq : UInt32) :
    find_out_seq (put_out_seq c t seq) t' = find_out_seq c t' :=
  table.find_replace_of_ne fun heq => hne (out_seq_key_inj heq)

/-- The stored number of a connection after an update of it. -/
theorem get_update_self (c : con_manager_t) (seq : UInt32) (con : con_id_type) :
    get_con_out_seq (update_con_out_seq c seq con) con =
      if get_con_out_seq c con < seq then seq else get_con_out_seq c con := by
  simp only [update_con_out_seq]
  cases hfind : find_out_seq c (tuple_of con) with
  | none =>
    simp only [get_con_out_seq, find_put_self, hfind]
    split
    · rfl
    · rename_i hnot
      rw [UInt32.lt_iff_toNat_lt] at hnot
      exact UInt32.toNat_inj.mp (by simp only [UInt32.toNat_zero] at hnot ⊢; omega)
  | some entry =>
    simp only [get_con_out_seq, hfind]
    by_cases hge : entry.seq ≥ seq
    · rw [if_pos hge, hfind, if_neg (UInt32.not_lt.mpr hge)]
    · rw [if_neg hge, find_put_self, if_pos (UInt32.not_le.mp hge)]

theorem get_update_of_ne {con con' : con_id_type} (hne : tuple_of con ≠ tuple_of con') (c : con_manager_t)
    (seq : UInt32) : get_con_out_seq (update_con_out_seq c seq con) con' = get_con_out_seq c con' := by
  have hput : get_con_out_seq (put_out_seq c (tuple_of con) seq) con' = get_con_out_seq c con' := by
    simp only [get_con_out_seq, find_put_of_ne hne]
  simp only [update_con_out_seq]
  split
  · split
    · rfl
    · exact hput
  · exact hput

/-- Saving an ISN sets the stored number of its connection back to 0, and no other. -/
theorem get_save_isn (c : con_manager_t) (isn : UInt32) (con con' : con_id_type) :
    get_con_out_seq (save_isn c isn con) con' =
      if (tuple_of con).reverse = tuple_of con' then 0 else get_con_out_seq c con' := by
  have hflush : get_con_out_seq (save_isn c isn con) con' =
      get_con_out_seq (put_out_seq c (tuple_of con).reverse 0) con' := rfl
  rw [hflush]
  split
  · rename_i heq
    simp only [get_con_out_seq, ← heq, find_put_self]
  · rename_i hne
    simp only [get_con_out_seq, find_put_of_ne hne]

theorem get_isn_save_self (c : con_manager_t) (isn : UInt32) (con : con_id_type) :
    get_isn (save_isn c isn con) con = some isn := by
  have hfind : table.find con_isn_entry.key (table.replace con_isn_entry.key c.con_isn_list ⟨con, isn⟩)
      con.bytes = some ⟨con, isn⟩ := table.find_replace_self c.con_isn_list ⟨con, isn⟩
  exact congrArg (Option.map con_isn_entry.isn) hfind

theorem get_isn_save_of_ne {con con' : con_id_type} (hne : con ≠ con') (c : con_manager_t) (isn : UInt32) :
    get_isn (save_isn c isn con) con' = get_isn c con' := by
  have hfind : table.find con_isn_entry.key (table.replace con_isn_entry.key c.con_isn_list ⟨con, isn⟩)
      con'.bytes = table.find con_isn_entry.key c.con_isn_list con'.bytes :=
    table.find_replace_of_ne fun heq => hne (con_id_type.bytes_inj heq)
  exact congrArg (Option.map con_isn_entry.isn) hfind

end tables

/-- The connection manager, and the end of the latest segment of each connection since its ISN was
    saved. -/
structure tracking_t where
  c : con_manager_t
  latest : four_tuple → Option UInt32

/-- What happens to the sequence numbers: a SYN, an outgoing segment, and the check of an incoming
    ACK. -/
inductive seq_event where
  | save_isn (isn : UInt32) (con : con_id_type)
  | segment (seq : UInt32) (con : con_id_type)
  | ack (ack : UInt32) (con : con_id_type) (pad_0 pad_1 : UInt16)

def track (s : tracking_t) : seq_event → tracking_t
  | .save_isn isn con =>
    ⟨save_isn s.c isn con, Function.update s.latest (tuple_of con).reverse none⟩
  | .segment seq con =>
    ⟨update_con_out_seq s.c seq con, Function.update s.latest (tuple_of con) (some seq)⟩
  | .ack _ _ _ _ => s

def tracking_init : tracking_t := ⟨con_manager_init, fun _ => none⟩

/-- Each segment ends less than half of the numbers ahead of the one before, the first one anywhere. The
    connection of an ACK has an ISN, and the ACK lies less than half of the numbers away from the stored
    number. -/
def Advances (s : tracking_t) : seq_event → Prop
  | .save_isn _ _ => True
  | .segment seq con => ∀ last ∈ s.latest (tuple_of con), distance last seq < 2 ^ 31
  | .ack ack con pad_0 pad_1 =>
    get_isn s.c ((tuple_of con).reverse.con_id pad_0 pad_1) ≠ none ∧
      Within (get_con_out_seq s.c con) ack

/-- The end of the segment is stored; an ACK blocks exactly if it is ahead of the stored number and
    one. -/
def FollowsTcp (s : tracking_t) : seq_event → Prop
  | .save_isn _ _ => True
  | .segment seq con => get_con_out_seq (update_con_out_seq s.c seq con) con = seq
  | .ack ack con pad_0 pad_1 =>
    check_block s.c ack con pad_0 pad_1 = true ↔ Ahead (get_con_out_seq s.c con + 1) ack

/-- No step of the sequence numbers goes past 2^32. -/
def NoWrap (s : tracking_t) : seq_event → Prop
  | .save_isn _ _ => True
  | .segment seq con => ∀ last ∈ s.latest (tuple_of con), last ≤ seq
  | .ack ack con _ _ => Near (get_con_out_seq s.c con + 1) ack

/-- The stored number is the latest one. -/
def Tracked (s : tracking_t) : Prop := ∀ con, get_con_out_seq s.c con = (s.latest (tuple_of con)).getD 0

/-- The greater number is the latest one exactly if the latest one is not below the one before. -/
theorem follows_segment_iff {s : tracking_t} (hs : Tracked s) (seq : UInt32) (con : con_id_type) :
    FollowsTcp s (.segment seq con) ↔ NoWrap s (.segment seq con) := by
  simp only [FollowsTcp, NoWrap, get_update_self, hs con]
  cases s.latest (tuple_of con) with
  | none =>
    simp only [Option.getD_none, Option.not_mem_none, false_imp_iff, implies_true, iff_true]
    split
    · rfl
    · rename_i hnot
      rw [UInt32.lt_iff_toNat_lt] at hnot
      exact UInt32.toNat_inj.mp (by simp only [UInt32.toNat_zero] at hnot ⊢; omega)
  | some last =>
    simp only [Option.getD_some, Option.mem_some_iff, forall_eq', UInt32.le_iff_toNat_le,
      UInt32.lt_iff_toNat_lt]
    split
    · simp only [true_iff]
      omega
    · rw [← UInt32.toNat_inj]
      omega

theorem follows_ack_iff {s : tracking_t} {ack : UInt32} {con : con_id_type} {pad_0 pad_1 : UInt16}
    (hisn : get_isn s.c ((tuple_of con).reverse.con_id pad_0 pad_1) ≠ none) :
    FollowsTcp s (.ack ack con pad_0 pad_1) ↔ NoWrap s (.ack ack con pad_0 pad_1) := by
  obtain ⟨isn, hisn⟩ := Option.ne_none_iff_exists'.mp hisn
  simp only [FollowsTcp, NoWrap, check_block, hisn, decide_eq_true_eq]
  exact lt_iff_ahead_iff _ _

theorem tracked_step {s : tracking_t} (hs : Tracked s) {e : seq_event} (hok : NoWrap s e) :
    Tracked (track s e) := by
  intro con'
  cases e with
  | save_isn isn con =>
    simp only [track, get_save_isn]
    by_cases heq : (tuple_of con).reverse = tuple_of con'
    · rw [if_pos heq, heq, Function.update_self]
      rfl
    · rw [if_neg heq, Function.update_of_ne (Ne.symm heq), hs con']
  | segment seq con =>
    simp only [track]
    by_cases heq : tuple_of con = tuple_of con'
    · have hsame : ∀ c, get_con_out_seq c con' = get_con_out_seq c con := by
        intro c
        simp only [get_con_out_seq, heq]
      rw [← heq, Function.update_self, Option.getD_some, hsame]
      exact (follows_segment_iff hs seq con).mpr hok
    · rw [get_update_of_ne heq, Function.update_of_ne (Ne.symm heq), hs con']
  | ack ack con pad_0 pad_1 => exact hs con'

/-- In runs whose segments advance, the stored numbers and the answers follow the arithmetic of TCP
    exactly when no segment ends below the one before it, as plain numbers, and each ACK is near the
    stored number. -/
theorem sequence_tracking_iff (events : List seq_event) (hadvances : AllOk track Advances tracking_init events) :
    AllOk track FollowsTcp tracking_init events ↔ AllOk track NoWrap tracking_init events := by
  refine allOk_iff_of_assumed (I := Tracked) (fun s e hs _ hok => tracked_step hs hok) ?_ ?_ hadvances
  · intro s e hs hassumed
    cases e with
    | save_isn isn con => exact Iff.rfl
    | segment seq con => exact follows_segment_iff hs seq con
    | ack ack con pad_0 pad_1 => exact follows_ack_iff hassumed.1
  · intro con
    rfl

instance (s : tracking_t) : ∀ e, Decidable (Advances s e)
  | .save_isn _ _ => isTrue trivial
  | .segment _ con => Option.decidableForallMem (s.latest (tuple_of con))
  | .ack ack con pad_0 pad_1 => inferInstanceAs (Decidable
      (get_isn s.c ((tuple_of con).reverse.con_id pad_0 pad_1) ≠ none ∧ Within (get_con_out_seq s.c con) ack))

instance (s : tracking_t) : ∀ e, Decidable (FollowsTcp s e)
  | .save_isn _ _ => isTrue trivial
  | .segment seq con => inferInstanceAs (Decidable (get_con_out_seq (update_con_out_seq s.c seq con) con = seq))
  | .ack ack con pad_0 pad_1 => inferInstanceAs (Decidable
      (check_block s.c ack con pad_0 pad_1 = true ↔ Ahead (get_con_out_seq s.c con + 1) ack))

instance (s : tracking_t) : ∀ e, Decidable (NoWrap s e)
  | .save_isn _ _ => isTrue trivial
  | .segment _ con => Option.decidableForallMem (s.latest (tuple_of con))
  | .ack ack con _ _ => inferInstanceAs (Decidable (Near (get_con_out_seq s.c con + 1) ack))

/-- A client connection, and the server's name for it. -/
def client_con : con_id_type := (four_tuple.mk 7 40000 1 80).con_id 0 0
def server_con : con_id_type := (four_tuple.mk 1 80 7 40000).con_id 0 0

/-- Two segments and an ACK that waits for a third one. -/
def short_stream : List seq_event :=
  [.save_isn 1 server_con, .segment 1000 client_con, .segment 2000 client_con, .ack 2500 client_con 0 0]

theorem short_stream_follows_tcp :
    AllOk track Advances tracking_init short_stream ∧ AllOk track FollowsTcp tracking_init short_stream := by
  have hadvances : AllOk track Advances tracking_init short_stream := by decide +kernel
  exact ⟨hadvances, (sequence_tracking_iff short_stream hadvances).mpr (by decide +kernel)⟩

/-- A segment that ends past 2^32, and an ACK past 2^32. -/
def wrapped_segment : List seq_event :=
  [.save_isn 1 server_con, .segment 0xFFFFFF00 client_con, .segment 0x100 client_con]

def wrapped_ack : List seq_event :=
  [.save_isn 1 server_con, .segment 0xFFFFFF00 client_con, .ack 0x10 client_con 0 0]

theorem wrapped_numbers_do_not_follow_tcp :
    AllOk track Advances tracking_init wrapped_segment ∧ AllOk track Advances tracking_init wrapped_ack ∧
      ¬ AllOk track FollowsTcp tracking_init wrapped_segment ∧
      ¬ AllOk track FollowsTcp tracking_init wrapped_ack := by
  decide +kernel

end host
