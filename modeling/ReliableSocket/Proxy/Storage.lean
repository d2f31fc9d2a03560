import ReliableSocket.Dare.Log.Entry

open memory dare.log

namespace proxy

def CONNECT : UInt8 := 4
def SEND : UInt8 := 5
def CLOSE : UInt8 := 6
def RAW : UInt8 := 7
def TCPNEWCON : UInt8 := 8

def PROXY_CONNECT_MSG_SIZE : Nat := 4
def PROXY_CLOSE_MSG_SIZE : Nat := 4

/-- `sizeof(proxy_send_msg)`: the header, four bytes of padding and the 16 bytes of the `data` union. -/
def SIZEOF_SEND_MSG : Nat := 24

/-- Fields of the message at an address. -/
def msg_connection_id (m : Mem) (a : Nat) : UInt16 := loadU16 m a
def msg_action (m : Mem) (a : Nat) : UInt8 := m (a + 2)
def msg_cmd_len (m : Mem) (a : Nat) : UInt16 := loadU16 m (a + 8)
def msg_cmd (m : Mem) (a : Nat) : List UInt8 := load m (a + 10) (msg_cmd_len m a).toNat

def PROXY_SEND_MSG_SIZE (m : Mem) (a : Nat) : Nat := (msg_cmd_len m a).toNat + SIZEOF_SEND_MSG

/-- The calls that act on the guest. -/
inductive effect where
  | do_action_connect (clt_id : UInt16)
  | do_action_send (clt_id : UInt16) (data : List UInt8)
  | do_action_close (clt_id : UInt16)
  | do_action_raw (data : List UInt8)
  | do_action_tcpnewcon (data : List UInt8)
deriving DecidableEq, Repr

def do_action_to_server (clt_id : UInt16) (type : UInt8) (data : List UInt8) : List effect :=
  if type = CONNECT then [.do_action_connect clt_id]
  else if type = SEND then [.do_action_send clt_id data]
  else if type = CLOSE then [.do_action_close clt_id]
  else if type = RAW then [.do_action_raw data]
  else if type = TCPNEWCON then [.do_action_tcpnewcon data]
  else []

/-- The record store: the records in the order of their numbers, and the global count of bytes. -/
structure db_t where
  records : List (List UInt8)
  records_len : UInt32
deriving DecidableEq

def initialize_db : db_t := ⟨[], 0⟩

/-- The bytes are counted before it is known whether the record can be put. The size of a record is a
    32-bit number in the database. -/
def store_record (db : db_t) (put : Bool) (data : List UInt8) : db_t where
  records := if put then db.records ++ [data.take (data.length % 2 ^ 32)] else db.records
  records_len := db.records_len + UInt32.ofNat data.length

/-- All records one after the other. -/
def dump_records (db : db_t) : List UInt8 := db.records.flatten

/-- The size of the record that is stored for a message, none for an action that is not stored. -/
def record_size (m : Mem) (a : Nat) : Option Nat :=
  if msg_action m a = CONNECT then some PROXY_CONNECT_MSG_SIZE
  else if msg_action m a = SEND then some (PROXY_SEND_MSG_SIZE m a)
  else if msg_action m a = CLOSE then some PROXY_CLOSE_MSG_SIZE
  else none

/-- The message at address `a` is stored; the store takes every record. -/
def stablestorage_save_request (m : Mem) (a : Nat) (db : db_t) : db_t :=
  match record_size m a with
  | some size => store_record db true (load m a size)
  | none => db

/-- What a record does to the guest when it is loaded. -/
def record_effect (m : Mem) (a : Nat) : effect :=
  if msg_action m a = SEND then .do_action_send (msg_connection_id m a) (msg_cmd m a)
  else if msg_action m a = CONNECT then .do_action_connect (msg_connection_id m a)
  else .do_action_close (msg_connection_id m a)

/-- The loop of `stablestorage_load_records`. An action that it does not know leaves `len` as it is.
    No fuel means that the loop has not ended. -/
def load_loop (buf : Mem) (size : UInt32) : Nat → UInt32 → db_t → Option (db_t × List effect)
  | 0, _, _ => none
  | fuel + 1, len, db =>
    if len < size then
      match record_size buf len.toNat with
      | some n =>
        (load_loop buf size fuel (len + UInt32.ofNat n)
          (store_record db true (load buf len.toNat n))).map
            fun r => (r.1, record_effect buf len.toNat :: r.2)
      | none => load_loop buf size fuel len db
    else some (db, [])

/-- Each record has at least one byte, so as many rounds as bytes are enough. -/
def stablestorage_load_records (buf : Mem) (size : UInt32) (db : db_t) : Option (db_t × List effect) :=
  load_loop buf size (size.toNat + 1) 0 db

/-- Offset of `clt_id` in an entry, where the stored message begins. -/
def CLT_ID_OFFSET : Nat := 24

/-- A follower applies the client entry at an offset of its log: the entry is stored, then the guest
    gets it. -/
def apply_client_entry (m : Mem) (entry : Nat) (db : db_t) : db_t × List effect :=
  (stablestorage_save_request m (entry + CLT_ID_OFFSET) db,
    do_action_to_server (entry_clt_id m entry) (entry_type m entry)
      (load m (entry + CMD_OFFSET) (entry_cmd_len m entry).toNat))

/-- Client entries applied in order, each from the log as it is at that time. -/
def apply_client_entries : List (Mem × Nat) → db_t → db_t × List effect
  | [], db => (db, [])
  | e :: es, db =>
    let r := apply_client_entry e.1 e.2 db
    let rest := apply_client_entries es r.1
    (rest.1, r.2 ++ rest.2)

/-- The type of the entry is one that the switch of `stablestorage_save_request` knows. -/
def is_stored (e : Mem × Nat) : Bool :=
  entry_type e.1 e.2 = CONNECT || entry_type e.1 e.2 = SEND || entry_type e.1 e.2 = CLOSE

/-- Each of the entries leaves one record, and loading a dump of the records on a fresh server, with
    its size, does to the guest what applying the entries did. -/
def SnapshotCovers (es : List (Mem × Nat)) : Prop :=
  (∀ e ∈ es, ∀ db, (apply_client_entry e.1 e.2 db).1.records.length = db.records.length + 1) ∧
  ∃ size : UInt32, size.toNat = (dump_records (apply_client_entries es initialize_db).1).length ∧
    ∀ buf, load buf 0 size.toNat = dump_records (apply_client_entries es initialize_db).1 →
      ∃ db, stablestorage_load_records buf size initialize_db =
        some (db, (apply_client_entries es initialize_db).2)

/-- The record that a stored entry leaves. -/
def record_of (e : Mem × Nat) : List UInt8 :=
  match record_size e.1 (e.2 + CLT_ID_OFFSET) with
  | some size => load e.1 (e.2 + CLT_ID_OFFSET) size
  | none => []

section messages

variable {m buf : Mem} {a b : Nat}

/-- The header decides which fields are read; a record holds them all. -/
theorem record_size_congr {n : Nat} (hsize : record_size m a = some n)
    (hload : load buf b n = load m a n) :
    record_size buf b = some n ∧ record_effect buf b = record_effect m a := by
  have hbyte : ∀ k j, k + j ≤ n → load buf (b + k) j = load m (a + k) j := by
    intro k j hkj
    have hsplit : ∀ (mem : Mem) (c : Nat), load mem c n =
        load mem c k ++ (load mem (c + k) j ++ load mem (c + k + j) (n - k - j)) := by
      intro mem c
      rw [← load_append mem (c + k), ← load_append mem c]
      congr 1
      omega
    rw [hsplit buf b, hsplit m a] at hload
    exact (List.append_inj (List.append_inj hload (by simp)).2 (by simp)).1
  have hheader : 4 ≤ n → msg_action buf b = msg_action m a ∧
      msg_connection_id buf b = msg_connection_id m a := by
    intro hn
    have haction := hbyte 2 1 (by omega)
    have hid := hbyte 0 2 (by omega)
    simp only [load, List.cons.injEq, and_true] at haction
    simp only [Nat.add_zero] at hid
    exact ⟨haction, by simp only [msg_connection_id, loadU16, hid]⟩
  simp only [record_size] at hsize
  split at hsize
  · rename_i htype
    obtain rfl := Option.some.inj hsize
    obtain ⟨haction, hid⟩ := hheader (by decide)
    simp [record_size, record_effect, haction, hid, htype, CONNECT, SEND]
  split at hsize
  · rename_i hnot htype
    obtain rfl := Option.some.inj hsize
    obtain ⟨haction, hid⟩ := hheader (by unfold PROXY_SEND_MSG_SIZE SIZEOF_SEND_MSG; omega)
    have hlen : msg_cmd_len buf b = msg_cmd_len m a := by
      simp only [msg_cmd_len, loadU16,
        hbyte 8 2 (by unfold PROXY_SEND_MSG_SIZE SIZEOF_SEND_MSG; omega)]
    have hcmd : msg_cmd buf b = msg_cmd m a := by
      rw [msg_cmd, msg_cmd, hlen]
      exact hbyte 10 _ (by unfold PROXY_SEND_MSG_SIZE SIZEOF_SEND_MSG; omega)
    simp [record_size, record_effect, PROXY_SEND_MSG_SIZE, haction, hid, htype, hlen, hcmd, CONNECT, SEND]
  split at hsize
  · rename_i hnot hnot' htype
    obtain rfl := Option.some.inj hsize
    obtain ⟨haction, hid⟩ := hheader (by decide)
    simp [record_size, record_effect, haction, hid, htype, CONNECT, SEND, CLOSE]
  · cases hsize

theorem record_size_bounds {n : Nat} (hsize : record_size m a = some n) : 4 ≤ n ∧ n < 2 ^ 17 := by
  have hlt : (msg_cmd_len m a).toNat < 2 ^ 16 := (msg_cmd_len m a).toNat_lt
  simp only [record_size] at hsize
  split at hsize
  · obtain rfl := Option.some.inj hsize
    decide
  split at hsize
  · obtain rfl := Option.some.inj hsize
    unfold PROXY_SEND_MSG_SIZE SIZEOF_SEND_MSG
    omega
  split at hsize
  · obtain rfl := Option.some.inj hsize
    decide
  · cases hsize

end messages

section entries

variable {e : Mem × Nat}

theorem record_size_of_entry (e : Mem × Nat) :
    (record_size e.1 (e.2 + CLT_ID_OFFSET)).isSome = is_stored e := by
  have haction : msg_action e.1 (e.2 + CLT_ID_OFFSET) = entry_type e.1 e.2 := rfl
  simp only [record_size, is_stored, haction]
  split
  · simp [*]
  split
  · simp [*]
  split
  · simp [*]
  · simp [*]

/-- The message in an entry does to the guest what the entry does. -/
theorem record_effect_of_entry (hstored : is_stored e = true) (db : db_t) :
    (apply_client_entry e.1 e.2 db).2 = [record_effect e.1 (e.2 + CLT_ID_OFFSET)] := by
  have haction : msg_action e.1 (e.2 + CLT_ID_OFFSET) = entry_type e.1 e.2 := rfl
  have hid : msg_connection_id e.1 (e.2 + CLT_ID_OFFSET) = entry_clt_id e.1 e.2 := rfl
  have hcmd : msg_cmd e.1 (e.2 + CLT_ID_OFFSET) =
      load e.1 (e.2 + CMD_OFFSET) (entry_cmd_len e.1 e.2).toNat := rfl
  simp only [is_stored, Bool.or_eq_true, decide_eq_true_eq, or_assoc] at hstored
  obtain htype | htype | htype := hstored
  · simp [apply_client_entry, do_action_to_server, record_effect, haction, hid, htype, CONNECT, SEND]
  · simp [apply_client_entry, do_action_to_server, record_effect, haction, hid, hcmd, htype, CONNECT, SEND]
  · simp [apply_client_entry, do_action_to_server, record_effect, haction, hid, htype, CONNECT, SEND, CLOSE]

/-- A record shorter than 4 GiB is stored as it is. -/
theorem store_record_records {data : List UInt8} (hlt : data.length < 2 ^ 32) (db : db_t) :
    (store_record db true data).records = db.records ++ [data] := by
  simp only [store_record, if_true]
  rw [Nat.mod_eq_of_lt hlt, List.take_length]

theorem records_of_stored (hstored : is_stored e = true) (db : db_t) :
    (apply_client_entry e.1 e.2 db).1.records = db.records ++ [record_of e] := by
  rw [← record_size_of_entry, Option.isSome_iff_exists] at hstored
  obtain ⟨n, hn⟩ := hstored
  have hbounds := record_size_bounds hn
  have hlt : (load e.1 (e.2 + CLT_ID_OFFSET) n).length < 2 ^ 32 := by
    rw [load_length]
    omega
  simp only [apply_client_entry, stablestorage_save_request, record_of, hn]
  exact store_record_records hlt db

theorem records_of_not_stored (hstored : is_stored e = false) (db : db_t) :
    (apply_client_entry e.1 e.2 db).1 = db := by
  rw [← record_size_of_entry, Option.isSome_eq_false_iff, Option.isNone_iff_eq_none] at hstored
  simp [apply_client_entry, stablestorage_save_request, hstored]

/-- An entry leaves one record exactly when its type is stored. -/
theorem leaves_record_iff (e : Mem × Nat) :
    (∀ db, (apply_client_entry e.1 e.2 db).1.records.length = db.records.length + 1) ↔
      is_stored e = true := by
  constructor
  · intro hone
    by_contra hnot
    have hsame := hone initialize_db
    rw [records_of_not_stored (Bool.eq_false_iff.mpr hnot)] at hsame
    omega
  · intro hstored db
    rw [records_of_stored hstored]
    simp

theorem records_of_entries {es : List (Mem × Nat)} (hstored : ∀ e ∈ es, is_stored e = true) (db : db_t) :
    (apply_client_entries es db).1.records = db.records ++ es.map record_of := by
  induction es generalizing db with
  | nil => simp [apply_client_entries]
  | cons e es ih =>
    have hhead := records_of_stored (hstored e (by simp)) db
    have hrest := ih (fun e he => hstored e (by simp [he])) (apply_client_entry e.1 e.2 db).1
    simp [apply_client_entries, hrest, hhead]

/-- The effects do not depend on what is stored. -/
theorem effects_of_entries {es : List (Mem × Nat)} (hstored : ∀ e ∈ es, is_stored e = true) (db : db_t) :
    (apply_client_entries es db).2 = es.map fun e => record_effect e.1 (e.2 + CLT_ID_OFFSET) := by
  induction es generalizing db with
  | nil => rfl
  | cons e es ih =>
    have hhead := record_effect_of_entry (hstored e (by simp)) db
    have hrest := ih (fun e he => hstored e (by simp [he])) (apply_client_entry e.1 e.2 db).1
    simp [apply_client_entries, hrest, hhead]

end entries

/-- One round of the loop at a record that is the copy of a stored message. -/
theorem load_loop_record {buf : Mem} {size len : UInt32} {fuel n : Nat} {e : Mem × Nat} {db : db_t}
    (hlt : len < size) (hn : record_size e.1 (e.2 + CLT_ID_OFFSET) = some n)
    (hload : load buf len.toNat n = record_of e) :
    load_loop buf size (fuel + 1) len db =
      (load_loop buf size fuel (len + UInt32.ofNat n) (store_record db true (record_of e))).map
        fun r => (r.1, record_effect e.1 (e.2 + CLT_ID_OFFSET) :: r.2) := by
  have hrecord : record_of e = load e.1 (e.2 + CLT_ID_OFFSET) n := by simp only [record_of, hn]
  obtain ⟨hsize, heffect⟩ := record_size_congr hn (hload.trans hrecord)
  simp only [load_loop, hlt, if_true, hsize, heffect, hload]

/-- The loop over the rest of a dump. `len` never wraps around, because the dump has a 32-bit size. -/
theorem load_loop_dump {es : List (Mem × Nat)} (hstored : ∀ e ∈ es, is_stored e = true) {buf : Mem}
    {size : UInt32} (len : UInt32) (fuel : Nat) (db : db_t)
    (hsize : len.toNat + (es.map record_of).flatten.length = size.toNat)
    (hload : load buf len.toNat (es.map record_of).flatten.length = (es.map record_of).flatten)
    (hfuel : es.length < fuel) :
    ∃ db', load_loop buf size fuel len db =
      some (db', es.map fun e => record_effect e.1 (e.2 + CLT_ID_OFFSET)) := by
  induction es generalizing len fuel db with
  | nil =>
    obtain ⟨fuel, rfl⟩ : ∃ k, fuel = k + 1 := ⟨fuel - 1, by omega⟩
    have hend : ¬ len < size := by
      rw [UInt32.lt_iff_toNat_lt]
      simp only [List.map_nil, List.flatten_nil, List.length_nil] at hsize
      omega
    exact ⟨db, by simp [load_loop, hend]⟩
  | cons e es ih =>
    obtain ⟨fuel, rfl⟩ : ∃ k, fuel = k + 1 := ⟨fuel - 1, by omega⟩
    obtain ⟨n, hn⟩ : ∃ n, record_size e.1 (e.2 + CLT_ID_OFFSET) = some n := by
      rw [← Option.isSome_iff_exists, record_size_of_entry]
      exact hstored e (by simp)
    have hbounds := record_size_bounds hn
    have hlength : (record_of e).length = n := by simp [record_of, hn]
    simp only [List.map_cons, List.flatten_cons, List.length_append, hlength] at hsize hload
    have hlt : len < size := by
      rw [UInt32.lt_iff_toNat_lt]
      omega
    have hnext : (len + UInt32.ofNat n).toNat = len.toNat + n := by
      have hsmall := size.toNat_lt
      rw [UInt32.toNat_add, UInt32.toNat_ofNat', Nat.mod_eq_of_lt (a := n) (by omega)]
      exact Nat.mod_eq_of_lt (by omega)
    rw [load_append] at hload
    obtain ⟨hhead, hrest⟩ := List.append_inj hload (by simp [hlength])
    obtain ⟨db', hloop⟩ := ih (fun e he => hstored e (by simp [he])) (len + UInt32.ofNat n) fuel
      (store_record db true (record_of e)) (by omega) (by rw [hnext]; exact hrest)
      (by simp only [List.length_cons] at hfuel; omega)
    exact ⟨db', by rw [load_loop_record hlt hn hhead, hloop]; rfl⟩

/-- A record is not empty. -/
theorem length_le_dump {es : List (Mem × Nat)} (hstored : ∀ e ∈ es, is_stored e = true) :
    es.length ≤ (es.map record_of).flatten.length := by
  induction es with
  | nil => simp
  | cons e es ih =>
    have hrest := ih fun e he => hstored e (by simp [he])
    obtain ⟨n, hn⟩ : ∃ n, record_size e.1 (e.2 + CLT_ID_OFFSET) = some n := by
      rw [← Option.isSome_iff_exists, record_size_of_entry]
      exact hstored e (by simp)
    have hlength : (record_of e).length = n := by simp [record_of, hn]
    have hbounds := record_size_bounds hn
    simp only [List.map_cons, List.flatten_cons, List.length_append, List.length_cons, hlength]
    omega

/-- A snapshot covers the applied client entries exactly when all of them are CONNECT, SEND or CLOSE
    entries and the dump is shorter than 2^32 bytes. -/
theorem snapshot_covers_stored_types (es : List (Mem × Nat)) :
    SnapshotCovers es ↔ (∀ e ∈ es, is_stored e = true) ∧
      (dump_records (apply_client_entries es initialize_db).1).length < 2 ^ 32 := by
  constructor
  · rintro ⟨hone, size, hsize, -⟩
    exact ⟨fun e he => (leaves_record_iff e).mp (hone e he), hsize ▸ size.toNat_lt⟩
  · rintro ⟨hstored, hlt⟩
    have hdump : dump_records (apply_client_entries es initialize_db).1 = (es.map record_of).flatten := by
      rw [dump_records, records_of_entries hstored]
      rfl
    rw [hdump] at hlt
    have hsize : (UInt32.ofNat (es.map record_of).flatten.length).toNat =
        (es.map record_of).flatten.length := by
      rw [UInt32.toNat_ofNat', Nat.mod_eq_of_lt hlt]
    refine ⟨fun e he => (leaves_record_iff e).mpr (hstored e he), _, by rw [hdump, hsize], ?_⟩
    intro buf hload
    rw [hdump, hsize] at hload
    rw [effects_of_entries hstored]
    apply load_loop_dump hstored 0 _ initialize_db
    · rw [hsize]
      exact Nat.zero_add _
    · exact hload
    · have hlength := length_le_dump hstored
      omega

/-- The memory of a log with a RAW entry of three bytes at offset 0. -/
def raw_entry : Mem := store (store (fun _ => 0) 26 [RAW]) DATA_OFFSET [3, 0, 65, 66, 67]

/-- A RAW entry acts on the guest and leaves no record: loading the empty dump does nothing. -/
theorem raw_entry_leaves_no_record :
    apply_client_entries [(raw_entry, 0)] initialize_db =
      (initialize_db, [.do_action_raw [65, 66, 67]]) ∧
    stablestorage_load_records (fun _ => 0) 0 initialize_db = some (initialize_db, []) ∧
    ¬ SnapshotCovers [(raw_entry, 0)] := by
  have happly : apply_client_entries [(raw_entry, 0)] initialize_db =
      (initialize_db, [.do_action_raw [65, 66, 67]]) := by decide +kernel
  refine ⟨happly, by decide +kernel, ?_⟩
  rintro ⟨hone, -⟩
  have hstored := (leaves_record_iff (raw_entry, 0)).mp (hone (raw_entry, 0) (by simp))
  revert hstored
  decide +kernel

end proxy
