import Mathlib.Algebra.GroupWithZero.Nat
import ReliableSocket.Proxy.Storage
import ReliableSocket.Run

open memory dare.log run

namespace proxy

/-- The rounds of the loop of `stablestorage_load_records`, each as the position and the size of its
    record, and `len` after the last one. A round looks at the header of the record, for a SEND also at
    its length, and stores all its bytes. No fuel means that the loop has not ended. -/
def load_rounds (buf : Mem) (size : UInt32) : Nat → UInt32 → Option (List (Nat × Nat) × UInt32)
  | 0, _ => none
  | fuel + 1, len =>
    if len < size then
      match record_size buf len.toNat with
      | some n =>
        (load_rounds buf size fuel (len + UInt32.ofNat n)).map fun r => ((len.toNat, n) :: r.1, r.2)
      | none => load_rounds buf size fuel len
    else some ([], len)

/-- The loop ends and no record goes past the end of the bytes. -/
def LoadsInBounds (buf : Mem) (size : UInt32) : Prop :=
  ∃ fuel rounds last, load_rounds buf size fuel 0 = some (rounds, last) ∧
    ∀ r ∈ rounds, r.1 + r.2 ≤ size.toNat

/-- The bytes from `a` to `z` are whole records of known actions, one behind the other. -/
inductive Records (buf : Mem) : Nat → Nat → Prop where
  | nil (a : Nat) : Records buf a a
  | cons {a n z : Nat} (hsize : record_size buf a = some n) (hrest : Records buf (a + n) z) :
      Records buf a z

section rounds

variable {buf : Mem} {size len : UInt32}

theorem Records.le {a z : Nat} (h : Records buf a z) : a ≤ z := by
  induction h with
  | nil a => exact Nat.le_refl a
  | cons hsize hrest ih => omega

theorem toNat_add_size {n : Nat} (hsum : len.toNat + n < 2 ^ 32) :
    (len + UInt32.ofNat n).toNat = len.toNat + n := by
  rw [UInt32.toNat_add, UInt32.toNat_ofNat', Nat.mod_eq_of_lt (show n < 2 ^ 32 by omega)]
  exact Nat.mod_eq_of_lt hsum

/-- The loop walks over whole records up to the end of the bytes. -/
theorem Records.rounds {a z : Nat} (h : Records buf a z) (hz : z = size.toNat) (ha : a = len.toNat)
    {fuel : Nat} (hfuel : z - a < fuel) :
    ∃ rounds, load_rounds buf size fuel len = some (rounds, size) ∧
      ∀ r ∈ rounds, r.1 + r.2 ≤ size.toNat := by
  induction h generalizing len fuel with
  | nil a =>
    obtain ⟨fuel, rfl⟩ : ∃ k, fuel = k + 1 := ⟨fuel - 1, by omega⟩
    obtain rfl : len = size := UInt32.toNat_inj.mp (ha.symm.trans hz)
    exact ⟨[], by simp [load_rounds], by simp⟩
  | @cons a n z hsize hrest ih =>
    obtain ⟨fuel, rfl⟩ : ∃ k, fuel = k + 1 := ⟨fuel - 1, by omega⟩
    have hbounds := record_size_bounds hsize
    have hle := hrest.le
    have hsmall := size.toNat_lt
    have hlt : len < size := by
      rw [UInt32.lt_iff_toNat_lt]
      omega
    have hnext : (len + UInt32.ofNat n).toNat = len.toNat + n := toNat_add_size (by omega)
    obtain ⟨rounds, hrounds, hin⟩ :=
      ih hz (show a + n = (len + UInt32.ofNat n).toNat by omega) (show z - (a + n) < fuel by omega)
    subst ha
    refine ⟨(len.toNat, n) :: rounds, by simp [load_rounds, hlt, hsize, hrounds], ?_⟩
    intro r hr
    obtain rfl | hr := List.mem_cons.mp hr
    · exact hz ▸ hle
    · exact hin r hr

/-- A loop that ends and stays in bounds has walked over whole records. -/
theorem records_of_rounds {fuel : Nat} {rounds : List (Nat × Nat)} {last : UInt32}
    (hrounds : load_rounds buf size fuel len = some (rounds, last))
    (hin : ∀ r ∈ rounds, r.1 + r.2 ≤ size.toNat) (hle : len.toNat ≤ size.toNat) :
    Records buf len.toNat size.toNat := by
  induction fuel generalizing len rounds with
  | zero => cases hrounds
  | succ fuel ih =>
    simp only [load_rounds] at hrounds
    split at hrounds
    · cases hsize : record_size buf len.toNat with
      | none =>
        rw [hsize] at hrounds
        exact ih hrounds hin hle
      | some n =>
        simp only [hsize, Option.map_eq_some_iff] at hrounds
        obtain ⟨⟨rest, last'⟩, hrest, heq⟩ := hrounds
        obtain ⟨rfl, rfl⟩ := Prod.mk.inj heq
        have hend := hin (len.toNat, n) (by simp)
        have hsmall := size.toNat_lt
        have hnext : (len + UInt32.ofNat n).toNat = len.toNat + n := toNat_add_size (by omega)
        have hrecords := ih hrest (fun r hr => hin r (by simp [hr])) (by omega)
        exact .cons hsize (hnext ▸ hrecords)
    · rename_i hnot
      rw [UInt32.lt_iff_toNat_lt] at hnot
      have hend : len.toNat = size.toNat := by omega
      rw [hend]
      exact .nil _

/-- An action that the loop does not know keeps it where it is. -/
theorem load_rounds_stuck (hlt : len < size) (hsize : record_size buf len.toNat = none) (fuel : Nat) :
    load_rounds buf size fuel len = none := by
  induction fuel with
  | zero => rfl
  | succ fuel ih => simp only [load_rounds, hlt, if_true, hsize, ih]

end rounds

/-- Loading ends and stays in bounds exactly when the bytes are whole records of known actions. -/
theorem loads_in_bounds_iff (buf : Mem) (size : UInt32) :
    LoadsInBounds buf size ↔ Records buf 0 size.toNat := by
  constructor
  · rintro ⟨fuel, rounds, last, hrounds, hin⟩
    exact records_of_rounds hrounds hin (Nat.zero_le _)
  · intro h
    obtain ⟨rounds, hrounds, hin⟩ := h.rounds rfl (show 0 = (0 : UInt32).toNat from rfl) (Nat.lt_succ_self _)
    exact ⟨_, rounds, size, hrounds, hin⟩

/-- A RAW message, and a SEND of 100 bytes of which only the first 24 are there. -/
def raw_record : Mem := store (fun _ => 0) 2 [RAW]
def cut_record : Mem := store (fun _ => 0) 2 [SEND, 0, 0, 0, 0, 0, 100, 0]

theorem unknown_and_cut_records :
    (∀ fuel, load_rounds raw_record 4 fuel 0 = none) ∧
      load_rounds cut_record 24 25 0 = some ([(0, 124)], 124) ∧
      ¬ LoadsInBounds raw_record 4 ∧ ¬ LoadsInBounds cut_record 24 := by
  have hstuck : ∀ fuel, load_rounds raw_record 4 fuel 0 = none :=
    load_rounds_stuck (by decide) (by decide +kernel)
  refine ⟨hstuck, by decide +kernel, ?_, ?_⟩
  · rintro ⟨fuel, rounds, last, hrounds, -⟩
    rw [hstuck] at hrounds
    cases hrounds
  · rintro ⟨fuel, rounds, last, hrounds, hin⟩
    cases fuel with
    | zero => cases hrounds
    | succ fuel =>
      have hsize : record_size cut_record 0 = some 124 := by decide +kernel
      have hlt : (0 : UInt32) < 24 := by decide
      simp only [load_rounds, hlt, if_true, UInt32.toNat_zero, hsize, Option.map_eq_some_iff] at hrounds
      obtain ⟨rest, -, heq⟩ := hrounds
      obtain ⟨rfl, -⟩ := Prod.mk.inj heq
      exact absurd (hin (0, 124) (by simp)) (by decide)

/-- The loop of `dump_records`: each record is copied behind the others, at a 32-bit position. -/
def dump_loop : List (List UInt8) → UInt32 → Mem → Mem
  | [], _, buf => buf
  | r :: records, len, buf =>
    dump_loop records (len + UInt32.ofNat r.length) (store buf len.toNat r)

/-- The records of the entries, dumped into any buffer and loaded with their size: the loader ends
    behind the last byte, and does to the guest what the entries do, with their connections and
    commands. -/
def RoundTrip (es : List (Mem × Nat)) : Prop :=
  ∀ buf : Mem,
    let records := (apply_client_entries es initialize_db).1.records
    let dump := dump_loop records 0 buf
    let size := UInt32.ofNat records.flatten.length
    (∃ rounds last, load_rounds dump size (size.toNat + 1) 0 = some (rounds, last) ∧
      last.toNat = records.flatten.length) ∧
    ∃ db, stablestorage_load_records dump size initialize_db =
      some (db, (apply_client_entries es initialize_db).2)

/-- The size of the record that an entry leaves. -/
def stored_size (e : Mem × Nat) : Nat := (record_size e.1 (e.2 + CLT_ID_OFFSET)).getD 0

section dump

variable {es : List (Mem × Nat)}

/-- What is dumped behind the first `len` bytes of a buffer. -/
theorem dump_loop_load (records : List (List UInt8)) (len : UInt32) (buf : Mem)
    (hlt : len.toNat + records.flatten.length < 2 ^ 32) :
    load (dump_loop records len buf) len.toNat records.flatten.length = records.flatten ∧
      ∀ b < len.toNat, dump_loop records len buf b = buf b := by
  induction records generalizing len buf with
  | nil => exact ⟨rfl, fun b _ => rfl⟩
  | cons r records ih =>
    rw [List.flatten_cons, List.length_append] at hlt ⊢
    have hnext : (len + UInt32.ofNat r.length).toNat = len.toNat + r.length := toNat_add_size (by omega)
    obtain ⟨hload, hbelow⟩ := ih (len + UInt32.ofNat r.length) (store buf len.toNat r) (by omega)
    rw [hnext] at hload hbelow
    have hfirst : load (dump_loop (r :: records) len buf) len.toNat r.length = r :=
      (load_congr fun b _ hhigh => hbelow b hhigh).trans (load_store_same buf len.toNat r)
    refine ⟨?_, fun b hb => ?_⟩
    · rw [load_append, hfirst]
      exact congrArg (r ++ ·) hload
    · rw [dump_loop, hbelow b (by omega), store_outside (.inl hb)]

theorem record_of_length (e : Mem × Nat) : (record_of e).length = stored_size e := by
  unfold record_of stored_size
  cases record_size e.1 (e.2 + CLT_ID_OFFSET) <;> simp

theorem dump_length (es : List (Mem × Nat)) :
    (es.map record_of).flatten.length = (es.map stored_size).sum := by
  rw [List.length_flatten, List.map_map]
  exact congrArg List.sum (List.map_congr_left fun e _ => record_of_length e)

/-- Copies of stored records are whole records. -/
theorem records_of_dump (hstored : ∀ e ∈ es, is_stored e = true) {buf : Mem} {a : Nat}
    (hload : load buf a (es.map record_of).flatten.length = (es.map record_of).flatten) :
    Records buf a (a + (es.map record_of).flatten.length) := by
  induction es generalizing a with
  | nil => exact .nil a
  | cons e es ih =>
    obtain ⟨n, hn⟩ : ∃ n, record_size e.1 (e.2 + CLT_ID_OFFSET) = some n := by
      rw [← Option.isSome_iff_exists, record_size_of_entry]
      exact hstored e (by simp)
    have hrecord : record_of e = load e.1 (e.2 + CLT_ID_OFFSET) n := by simp only [record_of, hn]
    rw [List.map_cons, List.flatten_cons, List.length_append, hrecord, load_length] at hload ⊢
    rw [load_append] at hload
    obtain ⟨hhead, hrest⟩ := List.append_inj hload (by simp)
    have hrecords := ih (fun e he => hstored e (by simp [he])) hrest
    rw [Nat.add_assoc] at hrecords
    exact .cons (record_size_congr hn hhead).1 hrecords

end dump

/-- The records of CONNECT, SEND and CLOSE entries are loaded as they were saved exactly when their
    sizes add up to less than 4 GiB. -/
theorem round_trip_iff (es : List (Mem × Nat)) (hstored : ∀ e ∈ es, is_stored e = true) :
    RoundTrip es ↔ (es.map stored_size).sum < 2 ^ 32 := by
  have hrecords : (apply_client_entries es initialize_db).1.records = es.map record_of :=
    records_of_entries hstored initialize_db
  simp only [RoundTrip, hrecords]
  rw [← dump_length]
  constructor
  · intro h
    obtain ⟨⟨rounds, last, -, hlast⟩, -⟩ := h fun _ => 0
    exact hlast ▸ last.toNat_lt
  · intro hlt buf
    have hsize : (UInt32.ofNat (es.map record_of).flatten.length).toNat =
        (es.map record_of).flatten.length := by
      rw [UInt32.toNat_ofNat', Nat.mod_eq_of_lt hlt]
    have hzero : (0 : UInt32).toNat = 0 := rfl
    obtain ⟨hload, -⟩ := dump_loop_load (es.map record_of) 0 buf (by omega)
    have hwhole := records_of_dump hstored hload
    rw [hzero, Nat.zero_add] at hwhole
    constructor
    · have hfuel : (es.map record_of).flatten.length - 0 <
          (UInt32.ofNat (es.map record_of).flatten.length).toNat + 1 := by omega
      obtain ⟨rounds, hrounds, -⟩ := hwhole.rounds hsize.symm hzero.symm hfuel
      exact ⟨rounds, _, hrounds, hsize⟩
    · rw [effects_of_entries hstored]
      have hlength := length_le_dump hstored
      exact load_loop_dump hstored 0 _ initialize_db (by omega) hload (by omega)

/-- The memory of a log with a SEND entry of 65535 bytes at offset 0. -/
def long_send : Mem := store (store (fun _ => 0) 26 [SEND]) DATA_OFFSET [255, 255]

theorem long_send_stored : is_stored (long_send, 0) = true ∧ stored_size (long_send, 0) = 65559 := by
  decide +kernel

/-- The records of 65537 long SEND entries are more than the 32-bit size of the loader can say. -/
theorem long_sends_are_not_loaded :
    ((List.replicate 65537 (long_send, 0)).map stored_size).sum = 4296540183 ∧
      ¬ RoundTrip (List.replicate 65537 (long_send, 0)) := by
  obtain ⟨hstored, hsize⟩ := long_send_stored
  have hsum : ((List.replicate 65537 (long_send, 0)).map stored_size).sum = 4296540183 := by
    rw [List.map_replicate, hsize, List.sum_replicate_nat]
  refine ⟨hsum, fun h => ?_⟩
  obtain ⟨⟨rounds, last, -, hlast⟩, -⟩ := h fun _ => 0
  rw [records_of_entries (fun e he => List.eq_of_mem_replicate he ▸ hstored)] at hlast
  have hlength := dump_length (List.replicate 65537 (long_send, 0))
  have hlt := last.toNat_lt
  simp only [initialize_db, List.nil_append] at hlast
  omega

/-- A CONNECT, a SEND of three bytes and a CLOSE. -/
def short_entries : List (Mem × Nat) :=
  [(store (fun _ => 0) 26 [CONNECT], 0),
    (store (store (fun _ => 0) 26 [SEND]) DATA_OFFSET [3, 0, 65, 66, 67], 0),
    (store (fun _ => 0) 26 [CLOSE], 0)]

theorem short_entries_round_trip :
    (∀ e ∈ short_entries, is_stored e = true) ∧ (short_entries.map stored_size).sum = 35 ∧
      RoundTrip short_entries := by
  have hstored : ∀ e ∈ short_entries, is_stored e = true := by decide +kernel
  have hsum : (short_entries.map stored_size).sum = 35 := by decide +kernel
  exact ⟨hstored, hsum, (round_trip_iff short_entries hstored).mpr (by omega)⟩

/-- The database that a process has open, none for a null pointer, and its global count of bytes. -/
structure process_t where
  db_ptr : Option (List (List UInt8))
  records_len : UInt32
deriving DecidableEq

/-- The calls that change them. The file that `initialize_db` opens may hold records; opening it and
    each put may fail. -/
inductive db_call where
  | initialize_db (file : List (List UInt8)) (opened : Bool)
  | store_record (put : Bool) (data : List UInt8)

def db_step (s : process_t) : db_call → process_t
  | .initialize_db file opened => { s with db_ptr := if opened then some file else none }
  | .store_record put data =>
    match s.db_ptr with
    | some records =>
      let db := store_record ⟨records, s.records_len⟩ put data
      ⟨some db.records, db.records_len⟩
    | none => s

/-- A process that has just started. -/
def fresh_process : process_t := ⟨none, 0⟩

def get_records_len (s : process_t) : UInt32 := s.records_len

/-- The announced size is the number of bytes that a dump of the open database copies. -/
def Announces (s : process_t) : Prop :=
  ∀ records, s.db_ptr = some records →
    (get_records_len s).toNat = (dump_records ⟨records, s.records_len⟩).length

/-- A file that is opened holds as many bytes as were counted before, and a record that is put keeps
    the sum below 4 GiB. A record that cannot be put is empty. -/
def CountsStored (s : process_t) : db_call → Prop
  | .initialize_db file opened => opened = true → file.flatten.length = s.records_len.toNat
  | .store_record put data =>
    s.db_ptr.isSome → if put then s.records_len.toNat + data.length % 2 ^ 32 < 2 ^ 32
      else data.length % 2 ^ 32 = 0

section announces

variable {s : process_t}

/-- What a store adds to the count and to the dump. -/
theorem store_record_lengths (db : db_t) (put : Bool) (data : List UInt8) :
    (store_record db put data).records_len.toNat =
        (db.records_len.toNat + data.length % 2 ^ 32) % 2 ^ 32 ∧
      (dump_records (store_record db put data)).length =
        (dump_records db).length + if put then data.length % 2 ^ 32 else 0 := by
  have hle := Nat.mod_le data.length (2 ^ 32)
  constructor
  · simp only [store_record, UInt32.toNat_add, UInt32.toNat_ofNat']
  · cases put with
    | false => simp [store_record, dump_records]
    | true =>
      simp only [store_record, dump_records, if_true, List.flatten_append, List.flatten_singleton,
        List.length_append, List.length_take, Nat.min_eq_left hle]

/-- A call keeps the announced size right exactly when it meets the condition. -/
theorem announces_step (hs : Announces s) (call : db_call) :
    Announces (db_step s call) ↔ CountsStored s call := by
  cases call with
  | initialize_db file opened =>
    cases opened with
    | false => simp [Announces, db_step, CountsStored]
    | true =>
      simp only [Announces, db_step, CountsStored, if_true, Option.some.injEq, forall_eq', forall_const]
      exact eq_comm
  | store_record put data =>
    cases hopen : s.db_ptr with
    | none => simp [Announces, db_step, CountsStored, hopen]
    | some records =>
      obtain ⟨hcount, hdump⟩ := store_record_lengths ⟨records, s.records_len⟩ put data
      have hbefore : s.records_len.toNat = (dump_records ⟨records, s.records_len⟩).length := hs records hopen
      have hsmall := s.records_len.toNat_lt
      have hiff : Announces (db_step s (.store_record put data)) ↔
          (store_record ⟨records, s.records_len⟩ put data).records_len.toNat =
            (dump_records (store_record ⟨records, s.records_len⟩ put data)).length := by
        simp only [Announces, db_step, hopen, Option.some.injEq, forall_eq']
        rfl
      rw [hiff, hcount, hdump, ← hbefore]
      simp only [CountsStored, hopen, Option.isSome_some, forall_const]
      cases put with
      | false =>
        simp only [Bool.false_eq_true, if_false]
        omega
      | true =>
        simp only [if_true]
        omega

end announces

/-- The announced size is right during a whole run of the process exactly when each call meets the
    condition. -/
theorem announced_size_iff (calls : List db_call) :
    Always db_step Announces fresh_process calls ↔ AllOk db_step CountsStored fresh_process calls :=
  always_iff_allOk (fun _ call hs hok => (announces_step hs call).mpr hok)
    (fun _ call hs hnext => (announces_step hs call).mp hnext) (fun _ hs => hs)
    (fun records h => by cases h) calls

/-- A server that is started again on its database, and one whose put fails. -/
theorem restart_and_failed_put :
    db_step fresh_process (.initialize_db [[0, 0, 4, 0]] true) = ⟨some [[0, 0, 4, 0]], 0⟩ ∧
      ¬ Always db_step Announces fresh_process [.initialize_db [[0, 0, 4, 0]] true] ∧
      ¬ Always db_step Announces fresh_process
        [.initialize_db [] true, .store_record false [0, 0, 4, 0]] := by
  refine ⟨rfl, ?_, ?_⟩
  · intro h
    exact absurd (h.2 [[0, 0, 4, 0]] rfl) (by decide)
  · intro h
    exact absurd (h.2.2 [] rfl) (by decide)

end proxy
