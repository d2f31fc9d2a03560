import ReliableSocket.Vpb.ConManager

open memory packet_buffer headers run host

namespace proxy

def SERVICE_PORT : UInt16 := 4321

/-- What `do_action_raw` does with a frame. -/
inductive raw_result where
  | save_isn (isn : UInt32) (con : con_id_type)
  | drop
  | write_to_tcp_buffer (con : con_id_type) (ack : UInt32)
  | write_to_packet_buffer
deriving DecidableEq, Repr

section raw

variable (guest_vm_ip : UInt32) (data : Mem) (size : Nat) (pad_0 pad_1 : UInt16)

/-- The frames that are taken for TCP. A SYN is dropped when its ISN is saved, under the name that the
    server gives the connection; the local variables `con_id` are not cleared. -/
def raw_tcp : raw_result :=
  if th_flags data &&& TH_SYN = TH_SYN then
    .save_isn (ntohl (th_seq data) + 1) ((frame_tuple data).reverse.con_id pad_0 pad_1)
  else if ip_dst data ≠ guest_vm_ip then .drop
  else if th_sport data = ntohs SERVICE_PORT then .drop
  else .write_to_tcp_buffer ((frame_tuple data).con_id pad_0 pad_1) (ntohl (th_ack data))

/-- The type of the Ethernet frame is not looked at. -/
def raw_action : raw_result :=
  if size > MSG_OFF + ETH_HDR_LEN then
    if ip_p data = IPPROTO_TCP then raw_tcp guest_vm_ip data pad_0 pad_1 else .write_to_packet_buffer
  else .write_to_packet_buffer

end raw

/-- The tables and rings of the host. -/
structure host_t where
  con_manager : con_manager_t
  pb : packet_buffer_t

def do_action_raw (guest_vm_ip : UInt32) (h : host_t) (data : Mem) (size : Nat) (pad_0 pad_1 : UInt16) :
    host_t :=
  match raw_action guest_vm_ip data size pad_0 pad_1 with
  | .save_isn isn con => { h with con_manager := save_isn h.con_manager isn con }
  | .drop => h
  | .write_to_tcp_buffer con ack => { h with pb := write_to_tcp_buffer h.pb con ack (load data 0 size) }
  | .write_to_packet_buffer => { h with pb := write_to_packet_buffer h.pb (load data 0 size) }

/-- The frames that `watch_guest_out` takes for TCP. -/
def is_tcp_frame (data : Mem) : Bool := ether_type data = ETHERTYPE_IPV4 && ip_p data = IPPROTO_TCP

/-- What should be done with a frame. -/
def classify (guest_vm_ip : UInt32) (data : Mem) (pad_0 pad_1 : UInt16) : raw_result :=
  if is_tcp_frame data then raw_tcp guest_vm_ip data pad_0 pad_1 else .write_to_packet_buffer

theorem watch_guest_out_isSome (buf : Mem) (len : Int) (pad_0 pad_1 : UInt16)
    (hlen : len > ETH_HDR_LEN + MSG_OFF) :
    (watch_guest_out buf len pad_0 pad_1).isSome = is_tcp_frame buf := by
  rw [watch_guest_out, if_pos hlen, is_tcp_frame]
  by_cases htype : ether_type buf = ETHERTYPE_IPV4
  · by_cases hproto : ip_p buf = IPPROTO_TCP <;> simp [htype, hproto]
  · simp [htype]

theorem raw_tcp_ne_packet (guest_vm_ip : UInt32) (data : Mem) (pad_0 pad_1 : UInt16) :
    raw_tcp guest_vm_ip data pad_0 pad_1 ≠ .write_to_packet_buffer := by
  rw [raw_tcp]
  split
  · simp
  split
  · simp
  split <;> simp

/-- A frame is treated as its headers say, and as the outgoing path takes it, exactly when no other
    protocol has the number of TCP where an IP packet has its protocol. -/
theorem raw_classified_iff (guest_vm_ip : UInt32) (data : Mem) (size : Nat) (pad_0 pad_1 : UInt16)
    (hsize : size > MSG_OFF + ETH_HDR_LEN) :
    (raw_action guest_vm_ip data size pad_0 pad_1 = classify guest_vm_ip data pad_0 pad_1 ∧
        (watch_guest_out data size pad_0 pad_1).isSome = is_tcp_frame data) ↔
      (ip_p data = IPPROTO_TCP → ether_type data = ETHERTYPE_IPV4) := by
  have hlen : (size : Int) > ETH_HDR_LEN + MSG_OFF := by omega
  have hne := raw_tcp_ne_packet guest_vm_ip data pad_0 pad_1
  rw [and_iff_left (watch_guest_out_isSome data size pad_0 pad_1 hlen), raw_action, if_pos hsize, classify,
    is_tcp_frame]
  by_cases hproto : ip_p data = IPPROTO_TCP
  · by_cases htype : ether_type data = ETHERTYPE_IPV4 <;> simp [hproto, htype, hne]
  · simp [hproto]

/-- The address of the guest, 10.22.1.100. -/
def guest_address : UInt32 := 0x6401160A

/-- A frame of a client for the guest with these flags, whose sequence number is 1000. -/
def client_frame (flags : UInt8) : Mem :=
  store (fun _ => 0) 22 ([8, 0, 0x45, 0, 0, 40, 0, 0, 0, 0, 0, 6, 0, 0, 10, 22, 1, 7, 10, 22, 1, 100] ++
    [0x9C, 0x40, 0, 80, 0, 0, 3, 0xE8, 0, 0, 0, 9, 0x50, flags])

theorem client_frame_is_classified :
    raw_action guest_address (client_frame 0x10) 64 0 0 =
        .write_to_tcp_buffer ((frame_tuple (client_frame 0x10)).con_id 0 0) 9 ∧
      raw_action guest_address (client_frame 0x10) 64 0 0 = classify guest_address (client_frame 0x10) 0 0 := by
  have hclassified := (raw_classified_iff guest_address (client_frame 0x10) 64 0 0 (by decide)).mpr
    fun _ => by decide +kernel
  exact ⟨by decide +kernel, hclassified.1⟩

/-- An ARP request from the hardware address 02:06:00:00:00:01. -/
def arp_frame : Mem :=
  store (fun _ => 0) 22 ([8, 6, 0, 1, 8, 0, 6, 4, 0, 1, 2, 6, 0, 0, 0, 1, 10, 22, 1, 7] ++
    [0, 0, 0, 0, 0, 0, 10, 22, 1, 100])

theorem arp_frame_is_dropped :
    raw_action guest_address arp_frame 52 0 0 = .drop ∧
      classify guest_address arp_frame 0 0 = .write_to_packet_buffer ∧
      ¬ (raw_action guest_address arp_frame 52 0 0 = classify guest_address arp_frame 0 0 ∧
        (watch_guest_out arp_frame 52 0 0).isSome = is_tcp_frame arp_frame) := by
  decide +kernel

/-- The bytes of a frame that `do_action_raw` looks at, as positions and lengths. The ports and addresses
    that are only printed are among them. -/
def raw_reads (guest_vm_ip : UInt32) (data : Mem) (size : Nat) : List (Nat × Nat) :=
  if size > MSG_OFF + ETH_HDR_LEN then
    (IP_OFFSET + 9, 1) ::
      if ip_p data = IPPROTO_TCP then
        (IP_OFFSET, 1) :: (tcp_offset data + 13, 1) ::
          if th_flags data &&& TH_SYN = TH_SYN then
            [(tcp_offset data, 2), (tcp_offset data + 2, 2), (IP_OFFSET + 16, 4), (IP_OFFSET + 12, 4),
              (tcp_offset data + 4, 4)]
          else
            (IP_OFFSET + 16, 4) ::
              if ip_dst data ≠ guest_vm_ip then []
              else
                (tcp_offset data, 2) :: (IP_OFFSET + 12, 4) ::
                  if th_sport data = ntohs SERVICE_PORT then []
                  else
                    [(tcp_offset data + 2, 2), (IP_OFFSET + 2, 2), (tcp_offset data + 12, 1),
                      (tcp_offset data + 8, 4), (0, size)]
      else [(0, size)]
  else [(0, size)]

/-- Parsing reads no byte behind the frame. -/
def ParsesInBounds (guest_vm_ip : UInt32) (data : Mem) (size : Nat) : Prop :=
  ∀ r ∈ raw_reads guest_vm_ip data size, r.1 + r.2 ≤ size

section reads

variable {guest_vm_ip : UInt32} {data data' : Mem} {size : Nat}

theorem th_flags_congr (hoffset : tcp_offset data' = tcp_offset data)
    (hload : load data' (tcp_offset data + 13) 1 = load data (tcp_offset data + 13) 1) :
    th_flags data' = th_flags data := by
  simp only [load, List.cons.injEq, and_true] at hload
  rw [th_flags, hoffset, hload, th_flags]

/-- The four numbers of the connection of a frame. -/
theorem frame_tuple_congr (hoffset : tcp_offset data' = tcp_offset data)
    (hsport : load data' (tcp_offset data) 2 = load data (tcp_offset data) 2)
    (hdport : load data' (tcp_offset data + 2) 2 = load data (tcp_offset data + 2) 2)
    (hsrc : load data' (IP_OFFSET + 12) 4 = load data (IP_OFFSET + 12) 4)
    (hdst : load data' (IP_OFFSET + 16) 4 = load data (IP_OFFSET + 16) 4) :
    frame_tuple data' = frame_tuple data := by
  simp only [frame_tuple, ip_src, ip_dst, th_sport, th_dport, loadU16, loadU32, hoffset, hsport, hdport, hsrc,
    hdst]

/-- What is done with a frame depends on the bytes that are read only. -/
theorem raw_action_congr (hreads : ∀ r ∈ raw_reads guest_vm_ip data size, load data' r.1 r.2 = load data r.1 r.2)
    (pad_0 pad_1 : UInt16) :
    raw_action guest_vm_ip data' size pad_0 pad_1 = raw_action guest_vm_ip data size pad_0 pad_1 := by
  unfold raw_reads at hreads
  unfold raw_action
  by_cases hsize : size > MSG_OFF + ETH_HDR_LEN
  case neg => rw [if_neg hsize, if_neg hsize]
  simp only [if_pos hsize, List.forall_mem_cons] at hreads ⊢
  obtain ⟨hip_p, hreads⟩ := hreads
  simp only [load, List.cons.injEq, and_true] at hip_p
  have hproto : ip_p data' = ip_p data := hip_p
  rw [hproto]
  by_cases htcp : ip_p data = IPPROTO_TCP
  case neg => rw [if_neg htcp, if_neg htcp]
  simp only [if_pos htcp, List.forall_mem_cons] at hreads ⊢
  obtain ⟨hip_hl, hflags, hreads⟩ := hreads
  have hoffset : tcp_offset data' = tcp_offset data := by
    simp only [load, List.cons.injEq, and_true] at hip_hl
    simp only [tcp_offset, ip_header_size, ip_hl, hip_hl]
  unfold raw_tcp
  rw [th_flags_congr hoffset hflags]
  by_cases hsyn : th_flags data &&& TH_SYN = TH_SYN
  · simp only [if_pos hsyn, List.forall_mem_cons] at hreads ⊢
    obtain ⟨hsport, hdport, hdst, hsrc, hseq, -⟩ := hreads
    rw [frame_tuple_congr hoffset hsport hdport hsrc hdst, th_seq, hoffset, loadU32, hseq, th_seq, loadU32]
  simp only [if_neg hsyn, List.forall_mem_cons] at hreads ⊢
  obtain ⟨hdst, hreads⟩ := hreads
  have hip_dst : ip_dst data' = ip_dst data := by rw [ip_dst, loadU32, hdst, ip_dst, loadU32]
  rw [hip_dst]
  by_cases hguest : ip_dst data ≠ guest_vm_ip
  · rw [if_pos hguest, if_pos hguest]
  simp only [if_neg hguest, List.forall_mem_cons] at hreads ⊢
  obtain ⟨hsport, hsrc, hreads⟩ := hreads
  have hth_sport : th_sport data' = th_sport data := by
    rw [th_sport, hoffset, loadU16, hsport, th_sport, loadU16]
  rw [hth_sport]
  by_cases hcontrol : th_sport data = ntohs SERVICE_PORT
  · rw [if_pos hcontrol, if_pos hcontrol]
  simp only [if_neg hcontrol, List.forall_mem_cons] at hreads ⊢
  obtain ⟨hdport, -, -, hack, -⟩ := hreads
  rw [frame_tuple_congr hoffset hsport hdport hsrc hdst, th_ack, hoffset, loadU32, hack, th_ack, loadU32]

end reads

/-- Parsing stays in the frame exactly when the frame is not parsed at all, or holds the protocol byte
    and, if that is TCP, the whole IP header without options and the TCP header up to the flags where
    the IP header puts it. -/
theorem parses_in_bounds_iff (guest_vm_ip : UInt32) (data : Mem) (size : Nat) :
    ParsesInBounds guest_vm_ip data size ↔
      size ≤ IP_OFFSET ∨ (IP_OFFSET + 10 ≤ size ∧
        (ip_p data = IPPROTO_TCP → IP_OFFSET + 20 ≤ size ∧ tcp_offset data + 14 ≤ size)) := by
  have hoffset : 24 ≤ tcp_offset data := Nat.le_add_right _ _
  have hip : IP_OFFSET = 24 := rfl
  have hstart : MSG_OFF + ETH_HDR_LEN = 24 := rfl
  simp only [ParsesInBounds, raw_reads, hstart, hip]
  split
  · rw [List.forall_mem_cons]
    by_cases htcp : ip_p data = IPPROTO_TCP
    · -- Every branch reads the destination address and no field behind the flags.
      rw [if_pos htcp, List.forall_mem_cons, List.forall_mem_cons]
      simp only [htcp, forall_const]
      split
      · simp only [List.forall_mem_cons, List.not_mem_nil, false_imp_iff, implies_true, and_true]
        omega
      rw [List.forall_mem_cons]
      split
      · simp only [List.not_mem_nil, false_imp_iff, implies_true, and_true]
        omega
      rw [List.forall_mem_cons, List.forall_mem_cons]
      split
      · simp only [List.not_mem_nil, false_imp_iff, implies_true, and_true]
        omega
      · simp only [List.forall_mem_cons, List.not_mem_nil, false_imp_iff, implies_true, and_true]
        omega
    · rw [if_neg htcp]
      simp only [htcp, false_imp_iff, List.forall_mem_cons, List.not_mem_nil, implies_true, and_true]
      omega
  · simp only [List.forall_mem_cons, List.not_mem_nil, false_imp_iff, implies_true, and_true]
    omega

/-- A frame of 30 bytes ends before the protocol, and one of 44 bytes with options in its IP header ends
    before the TCP header. -/
def options_frame : Mem := store (fun _ => 0) 24 [0x4F, 0, 0, 20, 0, 0, 0, 0, 0, 6]

theorem frames_read_past_their_end :
    raw_reads guest_address (fun _ => 0) 30 = [(33, 1), (0, 30)] ∧
      ¬ ParsesInBounds guest_address (fun _ => 0) 30 ∧
      raw_reads guest_address options_frame 44 = [(33, 1), (24, 1), (97, 1), (40, 4)] ∧
      ¬ ParsesInBounds guest_address options_frame 44 := by
  have hshort : raw_reads guest_address (fun _ => 0) 30 = [(33, 1), (0, 30)] := by decide +kernel
  have hoptions : raw_reads guest_address options_frame 44 = [(33, 1), (24, 1), (97, 1), (40, 4)] := by
    decide +kernel
  refine ⟨hshort, ?_, hoptions, ?_⟩
  · rw [ParsesInBounds, hshort]
    decide
  · rw [ParsesInBounds, hoptions]
    decide

/-- The tables, and for each connection the ISN that was saved last, with what the gaps of its key held. -/
structure lookup_t where
  con_manager : con_manager_t
  saved : four_tuple → Option (UInt32 × UInt16 × UInt16)

def lookup_t.save (s : lookup_t) (isn : UInt32) (con : con_id_type) : lookup_t where
  con_manager := save_isn s.con_manager isn con
  saved := Function.update s.saved (tuple_of con) (some (isn, con.pad_0, con.pad_1))

/-- The calls that save an ISN or look for one. What the gaps of a local variable hold is part of the
    call. -/
inductive isn_event where
  | do_action_raw (data : Mem) (size : Nat) (pad_0 pad_1 : UInt16)
  | check_block (ack : UInt32) (con : con_id_type) (pad_0 pad_1 : UInt16)
  | handle_consensused_con (t : four_tuple)

def lookup_step (guest_vm_ip : UInt32) (s : lookup_t) : isn_event → lookup_t
  | .do_action_raw data size pad_0 pad_1 =>
    match raw_action guest_vm_ip data size pad_0 pad_1 with
    | .save_isn isn con => s.save isn con
    | .drop => s
    | .write_to_tcp_buffer _ _ => s
    | .write_to_packet_buffer => s
  | .check_block _ _ _ _ => s
  | .handle_consensused_con _ => s

def lookup_init : lookup_t := ⟨con_manager_init, fun _ => none⟩

/-- The host on the same calls: a lookup changes nothing. -/
def host_step (guest_vm_ip : UInt32) (h : host_t) : isn_event → host_t
  | .do_action_raw data size pad_0 pad_1 => do_action_raw guest_vm_ip h data size pad_0 pad_1
  | .check_block _ _ _ _ => h
  | .handle_consensused_con _ => h

theorem host_step_con_manager (guest_vm_ip : UInt32) {h : host_t} {s : lookup_t}
    (hsame : h.con_manager = s.con_manager) (e : isn_event) :
    (host_step guest_vm_ip h e).con_manager = (lookup_step guest_vm_ip s e).con_manager := by
  cases e with
  | do_action_raw data size pad_0 pad_1 =>
    rw [host_step, do_action_raw, lookup_step]
    cases raw_action guest_vm_ip data size pad_0 pad_1 with
    | save_isn isn con => exact congrArg (save_isn · isn con) hsame
    | drop => exact hsame
    | write_to_tcp_buffer con ack => exact hsame
    | write_to_packet_buffer => exact hsame
  | check_block ack con pad_0 pad_1 => exact hsame
  | handle_consensused_con t => exact hsame

/-- The tables that the lookups see are those of the host, whatever its rings hold. -/
theorem host_steps_con_manager (guest_vm_ip : UInt32) (events : List isn_event) {h : host_t} {s : lookup_t}
    (hsame : h.con_manager = s.con_manager) :
    (steps (host_step guest_vm_ip) h events).con_manager =
      (steps (lookup_step guest_vm_ip) s events).con_manager := by
  induction events generalizing h s with
  | nil => exact hsame
  | cons e events ih => exact ih (host_step_con_manager guest_vm_ip hsame e)

/-- The ISN that was saved last for a connection. -/
def lookup_t.last_isn (s : lookup_t) (t : four_tuple) : Option UInt32 := (s.saved t).map Prod.fst

/-- A lookup finds the ISN that was saved last for the connection, and none if there is none. -/
def FindsIsn (s : lookup_t) : isn_event → Prop
  | .do_action_raw _ _ _ _ => True
  | .check_block _ con pad_0 pad_1 =>
    get_isn s.con_manager ((tuple_of con).reverse.con_id pad_0 pad_1) = s.last_isn (tuple_of con).reverse
  | .handle_consensused_con t =>
    ∀ isn, handle_consensused_con s.con_manager t isn = (s.last_isn t).getD isn

/-- The gaps hold what they held when the ISN of the connection was saved. -/
def SamePadding (s : lookup_t) : isn_event → Prop
  | .do_action_raw _ _ _ _ => True
  | .check_block _ con pad_0 pad_1 => ∀ v ∈ s.saved (tuple_of con).reverse, v.2 = (pad_0, pad_1)
  | .handle_consensused_con t => ∀ v ∈ s.saved t, v.2 = (0, 0)

/-- The last ISN is found with the gaps of its key, and without one every lookup fails. -/
structure Recorded (s : lookup_t) : Prop where
  found : ∀ t, ∀ v ∈ s.saved t, get_isn s.con_manager (t.con_id v.2.1 v.2.2) = some v.1
  missing : ∀ t, s.saved t = none → ∀ pad_0 pad_1, get_isn s.con_manager (t.con_id pad_0 pad_1) = none

section lookups

variable {s : lookup_t} {t : four_tuple} {pad_0 pad_1 : UInt16}

theorem saved_self (s : lookup_t) (isn : UInt32) (con : con_id_type) :
    (s.save isn con).saved (tuple_of con) = some (isn, con.pad_0, con.pad_1) := Function.update_self ..

theorem saved_of_ne {con : con_id_type} (hne : t ≠ tuple_of con) (isn : UInt32) :
    (s.save isn con).saved t = s.saved t := Function.update_of_ne hne ..

theorem get_isn_saved_of_ne {con : con_id_type} (hne : t ≠ tuple_of con) (isn : UInt32)
    (pad_0 pad_1 : UInt16) :
    get_isn (s.save isn con).con_manager (t.con_id pad_0 pad_1) =
      get_isn s.con_manager (t.con_id pad_0 pad_1) := by
  have hkey : con ≠ t.con_id pad_0 pad_1 := by
    rintro rfl
    exact hne rfl
  exact get_isn_save_of_ne hkey s.con_manager isn

theorem Recorded.save (hs : Recorded s) (isn : UInt32) (con : con_id_type) : Recorded (s.save isn con) where
  found t v hv := by
    by_cases heq : t = tuple_of con
    · subst heq
      rw [saved_self, Option.mem_some_iff] at hv
      subst hv
      exact get_isn_save_self s.con_manager isn con
    · rw [saved_of_ne heq] at hv
      rw [get_isn_saved_of_ne heq]
      exact hs.found t v hv
  missing t hnone pad_0 pad_1 := by
    by_cases heq : t = tuple_of con
    · subst heq
      rw [saved_self] at hnone
      cases hnone
    · rw [saved_of_ne heq] at hnone
      rw [get_isn_saved_of_ne heq]
      exact hs.missing t hnone pad_0 pad_1

theorem Recorded.step (hs : Recorded s) (guest_vm_ip : UInt32) (e : isn_event) :
    Recorded (lookup_step guest_vm_ip s e) := by
  cases e with
  | do_action_raw data size pad_0 pad_1 =>
    rw [lookup_step]
    split
    · exact hs.save _ _
    · exact hs
    · exact hs
    · exact hs
  | check_block ack con pad_0 pad_1 => exact hs
  | handle_consensused_con t => exact hs

/-- A lookup with the gaps of the last key. -/
theorem Recorded.lookup (hs : Recorded s) (hsame : ∀ v ∈ s.saved t, v.2 = (pad_0, pad_1)) :
    get_isn s.con_manager (t.con_id pad_0 pad_1) = s.last_isn t := by
  cases hsaved : s.saved t with
  | none => rw [hs.missing t hsaved, lookup_t.last_isn, hsaved, Option.map_none]
  | some v =>
    have hfound := hs.found t v hsaved
    rw [hsame v hsaved] at hfound
    rw [hfound, lookup_t.last_isn, hsaved, Option.map_some]

theorem finds_of_same_padding (hs : Recorded s) {e : isn_event} (hok : SamePadding s e) : FindsIsn s e := by
  cases e with
  | do_action_raw data size pad_0 pad_1 => trivial
  | check_block ack con pad_0 pad_1 => exact hs.lookup hok
  | handle_consensused_con t =>
    intro isn
    rw [handle_consensused_con, hs.lookup hok]

end lookups

/-- In every run in which the gaps of each key that is looked for hold what they held when the ISN of
    the connection was saved, every lookup finds that ISN, and none for other connections. -/
theorem lookups_find_last_isn (guest_vm_ip : UInt32) (events : List isn_event)
    (hsame : AllOk (lookup_step guest_vm_ip) SamePadding lookup_init events) :
    AllOk (lookup_step guest_vm_ip) FindsIsn lookup_init events := by
  have hinit : Recorded lookup_init := by
    refine ⟨fun t v hv => ?_, fun t _ pad_0 pad_1 => rfl⟩
    cases hv
  exact hsame.imp (I := Recorded) (fun s e hs _ => hs.step guest_vm_ip e)
    (fun s e hs hok => finds_of_same_padding hs hok) hinit

instance (s : lookup_t) : ∀ e, Decidable (SamePadding s e)
  | .do_action_raw _ _ _ _ => isTrue trivial
  | .check_block _ con _ _ => Option.decidableForallMem (s.saved (tuple_of con).reverse)
  | .handle_consensused_con t => Option.decidableForallMem (s.saved t)

/-- The name that the server gives the connection of the client. -/
def client_tuple : four_tuple := frame_tuple (client_frame TH_SYN)

/-- A SYN whose key has cleared gaps, an ACK of the connection, and its agreement. -/
def clean_lookups : List isn_event :=
  [.do_action_raw (client_frame TH_SYN) 64 0 0, .check_block 9 (client_tuple.con_id 3 4) 0 0,
    .handle_consensused_con client_tuple.reverse]

theorem clean_lookups_find_isn :
    AllOk (lookup_step guest_address) SamePadding lookup_init clean_lookups ∧
      AllOk (lookup_step guest_address) FindsIsn lookup_init clean_lookups ∧
      handle_consensused_con (steps (lookup_step guest_address) lookup_init clean_lookups).con_manager
        client_tuple.reverse 0 = 1001 := by
  have hsame : AllOk (lookup_step guest_address) SamePadding lookup_init clean_lookups := by decide +kernel
  exact ⟨hsame, lookups_find_last_isn guest_address clean_lookups hsame, by decide +kernel⟩

/-- A SYN whose key has something in its gaps. -/
def stained_syn : isn_event := .do_action_raw (client_frame TH_SYN) 64 0xBEEF 0

theorem stained_syn_is_not_found :
    get_isn (lookup_step guest_address lookup_init stained_syn).con_manager (client_tuple.reverse.con_id 0 0) =
        none ∧
      ¬ AllOk (lookup_step guest_address) FindsIsn lookup_init
        [stained_syn, .check_block 9 (client_tuple.con_id 0 0) 0 0] ∧
      ¬ AllOk (lookup_step guest_address) FindsIsn lookup_init
        [stained_syn, .handle_consensused_con client_tuple.reverse] := by
  refine ⟨by decide +kernel, fun h => ?_, fun h => ?_⟩
  · have hfinds := h.2.1
    revert hfinds
    simp only [FindsIsn]
    decide +kernel
  · have hfinds := h.2.1 0
    revert hfinds
    decide +kernel

end proxy
