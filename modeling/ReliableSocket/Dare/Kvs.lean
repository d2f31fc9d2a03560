import ReliableSocket.Buckets
import ReliableSocket.Run

open buckets run
open table (find key_of_find find_cons_self find_cons_of_ne)

namespace dare.kvs

def DEFAULT_KVS_SIZE : UInt32 := 1024

def KEY_SIZE : Nat := 64

def KVS_PUT : UInt8 := 1
def KVS_GET : UInt8 := 2
def KVS_RM : UInt8 := 3

/-- The size of `kvs_snapshot_entry_t` without the value. -/
def SIZEOF_SNAPSHOT_ENTRY : UInt32 := 66

/-- The array of a key, which holds the end of the string. -/
structure kvs_key_t where
  bytes : List UInt8
  size : bytes.length = KEY_SIZE
  terminated : 0 ∈ bytes

/-- `data` is nothing for a null pointer. -/
structure kvs_blob_t where
  len : UInt16
  data : Option (List UInt8)
deriving DecidableEq

structure kvs_entry_t where
  key : kvs_key_t
  blob : kvs_blob_t

/-- Each chain from its first to its last entry. -/
structure kvs_table_t where
  size : UInt32
  table : Nat → List kvs_entry_t

/-- The state machine, with the global `kvs_size`. -/
structure dare_kvs_sm_t where
  kvs_table : kvs_table_t
  kvs_size : UInt32

structure kvs_cmd_t where
  type : UInt8
  key : kvs_key_t
  len : UInt16
  data : List UInt8
  sized : data.length = len.toNat

structure sm_data_t where
  len : UInt16
  data : List UInt8
deriving DecidableEq

/-- Which allocations of a command return memory: `malloc` for a new entry and for its value, `realloc` for
    another value. -/
structure allocs_t where
  entry : Bool
  value : Bool
  resized : Bool

section strings

/-- Zero if the strings are equal. -/
def strcmp : List UInt8 → List UInt8 → Int
  | [], [] => 0
  | [], b :: _ => -b.toNat
  | a :: _, [] => a.toNat
  | a :: as, b :: bs => if a ≠ b then a.toNat - b.toNat else if a = 0 then 0 else strcmp as bs

/-- One round of the loop of `hash`; a `char` is signed. -/
def hash_round (hashval : UInt32) (c : UInt8) : UInt32 := c.toInt8.toInt32.toUInt32 + (hashval <<< 5) - hashval

def hash_loop : List UInt8 → UInt32 → UInt32
  | [], hashval => hashval
  | c :: key, hashval => if c = 0 then hashval else hash_loop key (hash_round hashval c)

end strings

section operations

variable (kvs_table : kvs_table_t) (s : dare_kvs_sm_t) (key : kvs_key_t)

def hash : Nat := (hash_loop key.bytes 0 % kvs_table.size).toNat

def lookup_key : Option kvs_entry_t :=
  (kvs_table.table (hash kvs_table key)).find? fun e => strcmp key.bytes e.key.bytes = 0

def kvs_table_t.set_chain (i : Nat) (chain : List kvs_entry_t) : kvs_table_t :=
  { kvs_table with table := Function.update kvs_table.table i chain }

/-- The inner loop of `remove_key`: what is left of the chain, and the entry that is taken out. -/
def remove_inner : List kvs_entry_t → List kvs_entry_t × Option kvs_entry_t
  | [] => ([], none)
  | e :: chain =>
    if strcmp key.bytes e.key.bytes = 0 then (chain, some e)
    else
      let r := remove_inner chain
      (e :: r.1, r.2)

/-- The chain of the key without the entry, and `kvs_size` without it. -/
def unlinked (chain : List kvs_entry_t) (e : kvs_entry_t) : dare_kvs_sm_t where
  kvs_table := s.kvs_table.set_chain (hash s.kvs_table key) chain
  kvs_size := s.kvs_size - SIZEOF_SNAPSHOT_ENTRY - e.blob.len.toUInt32

def remove_key : dare_kvs_sm_t :=
  match s.kvs_table.table (hash s.kvs_table key) with
  | [] => s
  | e :: chain =>
    if strcmp key.bytes e.key.bytes = 0 then unlinked s key chain e
    else
      match remove_inner key chain with
      | (chain, some found) => unlinked s key (e :: chain) found
      | (_, none) => s

/-- Write the blob of the entry that `lookup_key` finds. -/
def write_blob (blob : kvs_blob_t) : List kvs_entry_t → List kvs_entry_t
  | [] => []
  | e :: chain =>
    if strcmp key.bytes e.key.bytes = 0 then { e with blob := blob } :: chain
    else e :: write_blob blob chain

def with_blob (blob : kvs_blob_t) : kvs_table_t :=
  let i := hash kvs_table key
  kvs_table.set_chain i (write_blob key blob (kvs_table.table i))

/-- Result and new state; nothing if bytes are copied to a null pointer. `kvs_size` and the length are written
    before the allocations, and the pointer is lost if `realloc` fails. -/
def write_key (len : UInt16) (data : List UInt8) (alloc : allocs_t) : Option (Nat × dare_kvs_sm_t) :=
  match lookup_key s.kvs_table key with
  | some e =>
    if e.blob.len ≠ len then
      let kvs_size := s.kvs_size + (len.toUInt32 - e.blob.len.toUInt32)
      if alloc.resized then some (0, ⟨with_blob s.kvs_table key ⟨len, some data⟩, kvs_size⟩)
      else some (1, ⟨with_blob s.kvs_table key ⟨len, none⟩, kvs_size⟩)
    else
      match e.blob.data with
      | some _ => some (0, ⟨with_blob s.kvs_table key ⟨len, some data⟩, s.kvs_size⟩)
      | none => if len = 0 then some (0, s) else none
  | none =>
    if !alloc.entry then some (1, s)
    else
      let kvs_size := s.kvs_size + (SIZEOF_SNAPSHOT_ENTRY + len.toUInt32)
      if !alloc.value then some (1, { s with kvs_size := kvs_size })
      else
        let i := hash s.kvs_table key
        some (0, ⟨s.kvs_table.set_chain i (⟨key, len, some data⟩ :: s.kvs_table.table i), kvs_size⟩)

end operations

/-- Copy the value of an entry; nothing if bytes are copied from a null pointer. -/
def read_blob (blob : kvs_blob_t) : Option sm_data_t :=
  match blob.data with
  | some data => some ⟨blob.len, data.take blob.len.toNat⟩
  | none => if blob.len = 0 then some ⟨0, []⟩ else none

/-- Result, new state and answer. A command that copies from or to a null pointer has no result. -/
def apply_kvs_cmd (s : dare_kvs_sm_t) (kvs_cmd : kvs_cmd_t) (alloc : allocs_t) :
    Option (Nat × dare_kvs_sm_t × Option sm_data_t) :=
  if kvs_cmd.type = KVS_PUT then
    (write_key s kvs_cmd.key kvs_cmd.len kvs_cmd.data alloc).map fun r => (if r.1 ≠ 0 then 1 else 0, r.2, none)
  else if kvs_cmd.type = KVS_GET then
    match lookup_key s.kvs_table kvs_cmd.key with
    | none => some (0, s, some ⟨0, []⟩)
    | some e => (read_blob e.blob).map fun data => (0, s, some data)
  else if kvs_cmd.type = KVS_RM then some (0, remove_key s kvs_cmd.key, none)
  else some (1, s, none)

/-- A table of the given size, with cleared chains. -/
def create_kvs_sm (size : UInt32) : dare_kvs_sm_t where
  kvs_table := { size := if size = 0 then DEFAULT_KVS_SIZE else size, table := fun _ => [] }
  kvs_size := 0

/-- A run stops where a command has no result. -/
def step (s : Option dare_kvs_sm_t) (cmd : kvs_cmd_t × allocs_t) : Option dare_kvs_sm_t :=
  s.bind fun s => (apply_kvs_cmd s cmd.1 cmd.2).map fun r => r.2.1

section strings

/-- The string in an array. -/
def c_string (bytes : List UInt8) : List UInt8 := bytes.takeWhile fun b => b ≠ 0

theorem c_string_cons (b : UInt8) (bytes : List UInt8) :
    c_string (b :: bytes) = if b = 0 then [] else b :: c_string bytes := by
  simp only [c_string, List.takeWhile_cons, decide_not]
  by_cases hb : b = 0
  · simp [hb]
  · simp [hb]

theorem strcmp_eq_zero_iff (as bs : List UInt8) : strcmp as bs = 0 ↔ c_string as = c_string bs := by
  have hzero : ∀ b : UInt8, b.toNat = 0 ↔ b = 0 := fun b => by rw [← UInt8.toNat_inj]; rfl
  induction as generalizing bs with
  | nil =>
    cases bs with
    | nil => exact iff_of_true rfl rfl
    | cons b bs =>
      rw [strcmp, c_string_cons, Int.neg_eq_zero, Int.natCast_eq_zero, hzero]
      by_cases hb : b = 0
      · simp [hb, c_string]
      · simp [hb, c_string]
  | cons a as ih =>
    cases bs with
    | nil =>
      rw [strcmp, c_string_cons, Int.natCast_eq_zero, hzero]
      by_cases ha : a = 0
      · simp [ha, c_string]
      · simp [ha, c_string]
    | cons b bs =>
      rw [strcmp, c_string_cons, c_string_cons]
      by_cases hab : a = b
      · subst hab
        by_cases ha : a = 0
        · simp [ha]
        · simp [ha, ih]
      · have hne : a.toNat ≠ b.toNat := fun h => hab (UInt8.toNat_inj.mp h)
        rw [if_pos hab]
        refine iff_of_false (by omega) ?_
        by_cases ha : a = 0
        · have hb : b ≠ 0 := fun hb => hab (ha.trans hb.symm)
          simp [ha, hb]
        · by_cases hb : b = 0
          · simp [ha, hb]
          · simp [ha, hb, hab]

/-- The hash value of a string. -/
def string_hash (size : UInt32) (string : List UInt8) : Nat :=
  (string.foldl hash_round 0 % size).toNat

theorem hash_loop_eq (bytes : List UInt8) (hashval : UInt32) :
    hash_loop bytes hashval = (c_string bytes).foldl hash_round hashval := by
  induction bytes generalizing hashval with
  | nil => rfl
  | cons b bytes ih =>
    rw [hash_loop, c_string_cons]
    split_ifs
    · rfl
    · exact ih _

theorem hash_eq (kvs_table : kvs_table_t) (key : kvs_key_t) :
    hash kvs_table key = string_hash kvs_table.size (c_string key.bytes) := by
  rw [hash, hash_loop_eq, string_hash]

theorem string_hash_lt {size : UInt32} (hsize : 0 < size) (string : List UInt8) :
    string_hash size string < size.toNat := by
  rw [string_hash, UInt32.toNat_mod]
  exact Nat.mod_lt _ (UInt32.lt_iff_toNat_lt.mp hsize)

end strings

/-- The key of an entry as a string. -/
def name (e : kvs_entry_t) : List UInt8 := c_string e.key.bytes

section chains

variable {key : kvs_key_t} {chain : List kvs_entry_t} {e : kvs_entry_t}

theorem found_iff (key : kvs_key_t) (e : kvs_entry_t) :
    strcmp key.bytes e.key.bytes = 0 ↔ name e = c_string key.bytes := by
  rw [strcmp_eq_zero_iff, name, eq_comm]

theorem lookup_key_eq (kvs_table : kvs_table_t) (key : kvs_key_t) :
    lookup_key kvs_table key =
      lookup name (string_hash kvs_table.size) kvs_table.table (c_string key.bytes) := by
  rw [lookup_key, lookup, find, hash_eq]
  simp only [found_iff]

theorem remove_inner_eq (key : kvs_key_t) (chain : List kvs_entry_t) :
    remove_inner key chain = (table.remove name chain (c_string key.bytes), find name chain (c_string key.bytes)) := by
  induction chain with
  | nil => rfl
  | cons e chain ih =>
    simp only [remove_inner, found_iff]
    split_ifs with he
    · rw [← he, find_cons_self, table.remove, List.eraseP_cons_of_pos (by simp)]
    · rw [find_cons_of_ne he, ih, table.remove, table.remove, List.eraseP_cons_of_neg (by simpa using he)]

/-- The first entry is taken out like the others. -/
theorem remove_key_eq (s : dare_kvs_sm_t) (key : kvs_key_t) :
    remove_key s key =
      match lookup_key s.kvs_table key with
      | none => s
      | some e =>
        unlinked s key (table.remove name (s.kvs_table.table (hash s.kvs_table key)) (c_string key.bytes)) e := by
  rw [lookup_key_eq, lookup, ← hash_eq, remove_key]
  cases s.kvs_table.table (hash s.kvs_table key) with
  | nil => rfl
  | cons e chain =>
    simp only [found_iff]
    split_ifs with he
    · rw [← he, find_cons_self, table.remove, List.eraseP_cons_of_pos (by simp)]
    · rw [find_cons_of_ne he, table.remove, List.eraseP_cons_of_neg (by simpa using he), remove_inner_eq]
      cases find name chain (c_string key.bytes) with
      | none => rfl
      | some found => rfl

theorem write_blob_eq (hfind : find name chain (c_string key.bytes) = some e) (blob : kvs_blob_t) :
    write_blob key blob chain = table.overwrite name chain { e with blob := blob } := by
  have hname : name e = c_string key.bytes := key_of_find hfind
  induction chain with
  | nil => rfl
  | cons first chain ih =>
    have hwritten : name { e with blob := blob } = c_string key.bytes := hname
    simp only [write_blob, found_iff, table.overwrite, hwritten]
    split_ifs with hfirst
    · rw [← hfirst, find_cons_self] at hfind
      cases hfind
      rfl
    · rw [find_cons_of_ne hfirst] at hfind
      rw [ih hfind]

end chains

/-- The bytes of an entry in a snapshot. -/
def entry_bytes (e : kvs_entry_t) : Nat := SIZEOF_SNAPSHOT_ENTRY.toNat + e.blob.len.toNat

def kvs_table_t.entries (kvs_table : kvs_table_t) : List kvs_entry_t :=
  elements kvs_table.size.toNat kvs_table.table

/-- What a command does to the value of a key: the last PUT counts, unless the key is removed after it. -/
def put_or_rm (key : List UInt8) (value : Option (List UInt8)) (cmd : kvs_cmd_t) : Option (List UInt8) :=
  if c_string cmd.key.bytes = key then
    if cmd.type = KVS_PUT then some cmd.data else if cmd.type = KVS_RM then none else value
  else value

/-- The value of the last PUT of the key that is not followed by an RM. -/
def last_put (cmds : List kvs_cmd_t) (key : List UInt8) : Option (List UInt8) :=
  cmds.foldl (put_or_rm key) none

/-- The allocations succeed; `realloc` may return null for a value without bytes. -/
def allocates (cmd : kvs_cmd_t × allocs_t) : Bool :=
  cmd.2.entry && cmd.2.value && (cmd.2.resized || decide (cmd.1.len = 0))

/-- The blob has the bytes of the value. -/
def Holds (blob : kvs_blob_t) (value : List UInt8) : Prop :=
  value.length = blob.len.toNat ∧ (blob.data = some value ∨ blob.data = none ∧ blob.len = 0)

/-- The entry of a string. -/
def stored_entry (kvs_table : kvs_table_t) (key : List UInt8) : Option kvs_entry_t :=
  lookup name (string_hash kvs_table.size) kvs_table.table key

/-- The table stores the values of a map. -/
structure Stores (s : dare_kvs_sm_t) (map : List UInt8 → Option (List UInt8)) : Prop where
  size : 0 < s.kvs_table.size
  placed : Placed name (string_hash s.kvs_table.size) s.kvs_table.table
  stored : ∀ key, Option.Rel (fun e value => Holds e.blob value) (stored_entry s.kvs_table key) (map key)
  bytes : s.kvs_size.toNat = (s.kvs_table.entries.map entry_bytes).sum % 2 ^ 32

section sizes

variable {kvs_size : UInt32} {len old : UInt16} {total total' : Nat}

theorem size_of_entry (hsize : kvs_size.toNat = total % 2 ^ 32) :
    (kvs_size + (SIZEOF_SNAPSHOT_ENTRY + len.toUInt32)).toNat =
      (total + (SIZEOF_SNAPSHOT_ENTRY.toNat + len.toNat)) % 2 ^ 32 := by
  rw [UInt32.toNat_add, UInt32.toNat_add, UInt16.toNat_toUInt32, hsize]
  omega

theorem size_of_resized (hsize : kvs_size.toNat = total % 2 ^ 32) (htotal : total' + old.toNat = total + len.toNat) :
    (kvs_size + (len.toUInt32 - old.toUInt32)).toNat = total' % 2 ^ 32 := by
  have hlen := len.toNat_lt
  have hold := old.toNat_lt
  rw [UInt32.toNat_add, UInt32.toNat_sub, UInt16.toNat_toUInt32, UInt16.toNat_toUInt32, hsize]
  omega

theorem size_of_removed (hsize : kvs_size.toNat = total % 2 ^ 32)
    (htotal : total' + (SIZEOF_SNAPSHOT_ENTRY.toNat + old.toNat) = total) :
    (kvs_size - SIZEOF_SNAPSHOT_ENTRY - old.toUInt32).toNat = total' % 2 ^ 32 := by
  have hentry : SIZEOF_SNAPSHOT_ENTRY.toNat < 2 ^ 32 := SIZEOF_SNAPSHOT_ENTRY.toNat_lt
  have hold := old.toNat_lt
  rw [UInt32.toNat_sub, UInt32.toNat_sub, UInt16.toNat_toUInt32, hsize]
  omega

end sizes

section refinement

variable {s : dare_kvs_sm_t} {map : List UInt8 → Option (List UInt8)} {e : kvs_entry_t} {key : kvs_key_t}

theorem Stores.missing (h : Stores s map) {key : List UInt8} (hlookup : stored_entry s.kvs_table key = none) :
    map key = none := by
  have hstored := h.stored key
  rw [hlookup] at hstored
  cases hmap : map key with
  | none => rfl
  | some value =>
    rw [hmap] at hstored
    cases hstored

theorem Stores.holds (h : Stores s map) {key : List UInt8} (hlookup : stored_entry s.kvs_table key = some e) :
    ∃ value, map key = some value ∧ Holds e.blob value := by
  have hstored := h.stored key
  rw [hlookup] at hstored
  cases hmap : map key with
  | none =>
    rw [hmap] at hstored
    cases hstored
  | some value =>
    rw [hmap] at hstored
    cases hstored with
    | some hholds => exact ⟨value, rfl, hholds⟩

theorem with_blob_table (hfound : stored_entry s.kvs_table (c_string key.bytes) = some e) (blob : kvs_blob_t) :
    (with_blob s.kvs_table key blob).table =
      overwrite name (string_hash s.kvs_table.size) s.kvs_table.table { e with blob := blob } := by
  have hname : name e = c_string key.bytes := key_of_find hfound
  have hwritten : name { e with blob := blob } = c_string key.bytes := hname
  rw [overwrite, hwritten, with_blob, kvs_table_t.set_chain, hash_eq, write_blob_eq hfound]

theorem Stores.written (h : Stores s map) (hfound : stored_entry s.kvs_table (c_string key.bytes) = some e)
    {blob : kvs_blob_t} {value : List UInt8} (hholds : Holds blob value) {kvs_size : UInt32}
    (hsize : kvs_size = s.kvs_size + (blob.len.toUInt32 - e.blob.len.toUInt32)) :
    Stores ⟨with_blob s.kvs_table key blob, kvs_size⟩
      (Function.update map (c_string key.bytes) (some value)) := by
  have hname : name e = c_string key.bytes := key_of_find hfound
  have hwritten : name { e with blob := blob } = c_string key.bytes := hname
  have htable := with_blob_table hfound blob
  refine ⟨h.size, ?_, fun k => ?_, ?_⟩
  · rw [htable]
    exact h.placed.overwrite _
  · rw [stored_entry, htable, Function.update_apply]
    change Option.Rel _ (lookup name (string_hash s.kvs_table.size) _ k) _
    rw [lookup_overwrite, hwritten]
    split_ifs with hk
    · rw [hk, show lookup name _ _ (c_string key.bytes) = some e from hfound]
      exact .some hholds
    · exact h.stored k
  · have hbytes := h.bytes
    have hlookup : lookup name (string_hash s.kvs_table.size) s.kvs_table.table (name { e with blob := blob }) =
      some e := by rw [hwritten]; exact hfound
    have htotal := weight_overwrite entry_bytes hlookup (string_hash_lt h.size _)
    rw [kvs_table_t.entries] at hbytes ⊢
    rw [htable, hsize]
    refine size_of_resized hbytes ?_
    change (List.map entry_bytes (elements s.kvs_table.size.toNat _)).sum + _ = _
    simp only [entry_bytes] at htotal ⊢
    omega

theorem Stores.inserted (h : Stores s map) (hmissing : stored_entry s.kvs_table (c_string key.bytes) = none)
    {len : UInt16} {data : List UInt8} (hdata : data.length = len.toNat) :
    Stores ⟨s.kvs_table.set_chain (hash s.kvs_table key)
        (⟨key, len, some data⟩ :: s.kvs_table.table (hash s.kvs_table key)),
        s.kvs_size + (SIZEOF_SNAPSHOT_ENTRY + len.toUInt32)⟩
      (Function.update map (c_string key.bytes) (some data)) := by
  have hname : name ⟨key, len, some data⟩ = c_string key.bytes := rfl
  have htable : (s.kvs_table.set_chain (hash s.kvs_table key)
      (⟨key, len, some data⟩ :: s.kvs_table.table (hash s.kvs_table key))).table =
      insert name (string_hash s.kvs_table.size) s.kvs_table.table ⟨key, len, some data⟩ := by
    rw [buckets.insert, hname, kvs_table_t.set_chain, hash_eq]
  refine ⟨h.size, ?_, fun k => ?_, ?_⟩
  · rw [htable]
    exact h.placed.insert hmissing
  · rw [stored_entry, htable, Function.update_apply]
    change Option.Rel _ (lookup name (string_hash s.kvs_table.size) _ k) _
    rw [lookup_insert, hname]
    split_ifs
    · exact .some ⟨hdata, .inl rfl⟩
    · exact h.stored k
  · have hbytes := h.bytes
    rw [kvs_table_t.entries] at hbytes ⊢
    rw [htable]
    change _ = (List.map entry_bytes (elements s.kvs_table.size.toNat _)).sum % 2 ^ 32
    rw [weight_insert entry_bytes s.kvs_table.table (string_hash_lt h.size _)]
    exact size_of_entry hbytes

theorem Stores.removed (h : Stores s map) (hfound : stored_entry s.kvs_table (c_string key.bytes) = some e) :
    Stores (unlinked s key
        (table.remove name (s.kvs_table.table (hash s.kvs_table key)) (c_string key.bytes)) e)
      (Function.update map (c_string key.bytes) none) := by
  have htable : (unlinked s key (table.remove name (s.kvs_table.table (hash s.kvs_table key))
      (c_string key.bytes)) e).kvs_table.table =
      remove name (string_hash s.kvs_table.size) s.kvs_table.table (c_string key.bytes) := by
    rw [remove, unlinked, kvs_table_t.set_chain, hash_eq]
  refine ⟨h.size, ?_, fun k => ?_, ?_⟩
  · rw [htable]
    exact h.placed.remove _
  · rw [stored_entry, htable, Function.update_apply]
    change Option.Rel _ (lookup name (string_hash s.kvs_table.size) _ k) _
    rw [lookup_remove h.placed]
    split_ifs
    · exact .none
    · exact h.stored k
  · have hbytes := h.bytes
    have htotal := weight_remove entry_bytes hfound (string_hash_lt h.size _)
    rw [kvs_table_t.entries] at hbytes ⊢
    rw [htable]
    exact size_of_removed hbytes htotal

theorem Stores.congr {map' : List UInt8 → Option (List UInt8)} (h : Stores s map) (hsame : map' = map) :
    Stores s map' := hsame ▸ h

theorem put_or_rm_put {cmd : kvs_cmd_t} (hput : cmd.type = KVS_PUT) :
    (fun k => put_or_rm k (map k) cmd) = Function.update map (c_string cmd.key.bytes) (some cmd.data) := by
  funext k
  rw [put_or_rm, Function.update_apply, if_pos hput]
  by_cases hk : k = c_string cmd.key.bytes
  · rw [if_pos hk, if_pos hk.symm]
  · rw [if_neg hk, if_neg (Ne.symm hk)]

theorem put_or_rm_rm {cmd : kvs_cmd_t} (hrm : cmd.type = KVS_RM) :
    (fun k => put_or_rm k (map k) cmd) = Function.update map (c_string cmd.key.bytes) none := by
  funext k
  rw [put_or_rm, Function.update_apply, hrm, if_neg (show KVS_RM ≠ KVS_PUT by decide), if_pos rfl]
  by_cases hk : k = c_string cmd.key.bytes
  · rw [if_pos hk, if_pos hk.symm]
  · rw [if_neg hk, if_neg (Ne.symm hk)]

theorem put_or_rm_other {cmd : kvs_cmd_t} (hput : cmd.type ≠ KVS_PUT) (hrm : cmd.type ≠ KVS_RM) :
    (fun k => put_or_rm k (map k) cmd) = map := by
  funext k
  rw [put_or_rm, if_neg hput, if_neg hrm, ite_self]

theorem Stores.put (h : Stores s map) {len : UInt16} {data : List UInt8} (hdata : data.length = len.toNat)
    {alloc : allocs_t} (hentry : alloc.entry = true) (hvalue : alloc.value = true)
    (hresized : alloc.resized = true ∨ len = 0) :
    ∃ rc s', write_key s key len data alloc = some (rc, s') ∧
      Stores s' (Function.update map (c_string key.bytes) (some data)) := by
  rw [write_key, lookup_key_eq, ← stored_entry]
  cases hlookup : stored_entry s.kvs_table (c_string key.bytes) with
  | none =>
    simp only [hentry, hvalue, Bool.not_true, Bool.false_eq_true, if_false]
    exact ⟨_, _, rfl, h.inserted hlookup hdata⟩
  | some e =>
    simp only
    by_cases hlen : e.blob.len = len
    · -- the value is written in place
      rw [if_neg (not_not.mpr hlen)]
      cases hold : e.blob.data with
      | some old =>
        refine ⟨_, _, rfl, h.written hlookup ⟨hdata, .inl rfl⟩ ?_⟩
        rw [hlen, UInt32.sub_self, UInt32.add_zero]
      | none =>
        obtain ⟨value, hmap, hholds⟩ := h.holds hlookup
        have hzero : len = 0 := by
          obtain hsome | ⟨-, hzero⟩ := hholds.2
          · rw [hold] at hsome
            cases hsome
          · rw [← hlen, hzero]
        subst hzero
        have hempty : value = data := by
          have hvalue : value.length = 0 := by rw [hholds.1, hlen]; rfl
          rw [List.eq_nil_of_length_eq_zero hvalue, List.eq_nil_of_length_eq_zero hdata]
        refine ⟨0, s, rfl, h.congr ?_⟩
        rw [← hempty, ← hmap, Function.update_eq_self]
    · rw [if_pos hlen]
      split_ifs with hok
      · exact ⟨_, _, rfl, h.written hlookup ⟨hdata, .inl rfl⟩ rfl⟩
      · have hzero := hresized.resolve_left hok
        exact ⟨_, _, rfl, h.written hlookup ⟨hdata, .inr ⟨rfl, hzero⟩⟩ rfl⟩

theorem read_blob_of_holds {blob : kvs_blob_t} {value : List UInt8} (hholds : Holds blob value) :
    read_blob blob = some ⟨blob.len, value⟩ := by
  obtain ⟨hlength, hdata | ⟨hdata, hzero⟩⟩ := hholds
  · simp only [read_blob, hdata, ← hlength, List.take_length]
  · rw [hzero] at hlength
    rw [read_blob, hdata, hzero, List.eq_nil_of_length_eq_zero hlength]
    rfl

theorem Stores.get (h : Stores s map) {cmd : kvs_cmd_t} (hget : cmd.type = KVS_GET) (alloc : allocs_t) :
    ∃ data, apply_kvs_cmd s cmd alloc = some (0, s, some data) ∧
      data.data = (map (c_string cmd.key.bytes)).getD [] ∧ data.len.toNat = data.data.length := by
  rw [apply_kvs_cmd, hget, if_neg (show KVS_GET ≠ KVS_PUT by decide), if_pos rfl, lookup_key_eq, ← stored_entry]
  cases hlookup : stored_entry s.kvs_table (c_string cmd.key.bytes) with
  | none =>
    refine ⟨_, rfl, ?_, rfl⟩
    rw [h.missing hlookup]
    rfl
  | some e =>
    obtain ⟨value, hmap, hholds⟩ := h.holds hlookup
    simp only [read_blob_of_holds hholds]
    refine ⟨_, rfl, ?_, hholds.1.symm⟩
    rw [hmap]
    rfl

theorem Stores.step (h : Stores s map) {cmd : kvs_cmd_t × allocs_t} (halloc : allocates cmd = true) :
    ∃ s', kvs.step (some s) cmd = some s' ∧ Stores s' fun k => put_or_rm k (map k) cmd.1 := by
  obtain ⟨cmd, alloc⟩ := cmd
  simp only [allocates, Bool.and_eq_true, Bool.or_eq_true, decide_eq_true_eq] at halloc
  obtain ⟨⟨hentry, hvalue⟩, hresized⟩ := halloc
  simp only [kvs.step, Option.bind_some, apply_kvs_cmd]
  by_cases hput : cmd.type = KVS_PUT
  · obtain ⟨rc, s', hwrite, hs'⟩ := h.put cmd.sized hentry hvalue hresized
    rw [if_pos hput, hwrite, put_or_rm_put hput]
    exact ⟨s', rfl, hs'⟩
  rw [if_neg hput]
  by_cases hrm : cmd.type = KVS_RM
  · rw [hrm, if_neg (show KVS_RM ≠ KVS_GET by decide), if_pos rfl, put_or_rm_rm hrm, remove_key_eq,
      lookup_key_eq, ← stored_entry]
    refine ⟨_, rfl, ?_⟩
    cases hlookup : stored_entry s.kvs_table (c_string cmd.key.bytes) with
    | none =>
      refine h.congr ?_
      rw [← h.missing hlookup, Function.update_eq_self]
    | some e => exact h.removed hlookup
  · rw [put_or_rm_other hput hrm]
    by_cases hget : cmd.type = KVS_GET
    · obtain ⟨data, happly, -, -⟩ := h.get hget alloc
      rw [apply_kvs_cmd, if_neg hput] at happly
      exact ⟨s, by rw [happly]; rfl, h⟩
    · rw [if_neg hget, if_neg hrm]
      exact ⟨s, rfl, h⟩

theorem last_put_concat (cmds : List kvs_cmd_t) (cmd : kvs_cmd_t) (key : List UInt8) :
    last_put (cmds ++ [cmd]) key = put_or_rm key (last_put cmds key) cmd := by
  rw [last_put, List.foldl_append]
  rfl

theorem stores_empty {size : UInt32} : Stores (create_kvs_sm size) fun _ => none := by
  refine ⟨?_, placed_empty, fun _ => .none, ?_⟩
  · change 0 < if size = 0 then DEFAULT_KVS_SIZE else size
    split_ifs with hsize
    · decide
    · exact UInt32.pos_iff_ne_zero.mpr hsize
  · rw [kvs_table_t.entries, create_kvs_sm, elements_empty]
    rfl

/-- The store has not stopped, and has the values of the last PUTs. -/
theorem stores_last_puts (size : UInt32) (cmds : List (kvs_cmd_t × allocs_t))
    (halloc : ∀ cmd ∈ cmds, allocates cmd = true) :
    ∃ s, steps kvs.step (some (create_kvs_sm size)) cmds = some s ∧ Stores s (last_put (cmds.map Prod.fst)) := by
  have hstep : ∀ past s cmd, (∃ t, s = some t ∧ Stores t (last_put (past.map Prod.fst))) →
      allocates cmd = true →
      ∃ t, kvs.step s cmd = some t ∧ Stores t (last_put ((past ++ [cmd]).map Prod.fst)) := by
    rintro past s cmd ⟨t, rfl, ht⟩ hcmd
    obtain ⟨t', hnext, ht'⟩ := ht.step hcmd
    refine ⟨t', hnext, ?_⟩
    rw [List.map_append]
    exact ht'.congr (funext fun k => last_put_concat _ _ k)
  have hstart : ∃ t, some (create_kvs_sm size) = some t ∧ Stores t (last_put (([] : List (kvs_cmd_t ×
      allocs_t)).map Prod.fst)) := ⟨_, rfl, stores_empty⟩
  exact steps_history hstep hstart halloc

/-- The store is a map: a GET returns the value of the last PUT of its key that is not followed by an RM, no key
    occurs twice, and `kvs_size` is the size of all entries modulo 2^32. -/
def IsMap (s : dare_kvs_sm_t) (cmds : List kvs_cmd_t) : Prop :=
  (∀ cmd alloc, cmd.type = KVS_GET → ∃ data, apply_kvs_cmd s cmd alloc = some (0, s, some data) ∧
    data.data = (last_put cmds (c_string cmd.key.bytes)).getD [] ∧ data.len.toNat = data.data.length) ∧
  (s.kvs_table.entries.map name).Nodup ∧
  s.kvs_size.toNat = (s.kvs_table.entries.map entry_bytes).sum % 2 ^ 32

/-- That is so after every sequence of commands whose allocations succeed. -/
theorem kvs_is_map (size : UInt32) (cmds : List (kvs_cmd_t × allocs_t))
    (halloc : ∀ cmd ∈ cmds, allocates cmd = true) :
    ∃ s, steps kvs.step (some (create_kvs_sm size)) cmds = some s ∧ IsMap s (cmds.map Prod.fst) := by
  obtain ⟨s, hrun, hs⟩ := stores_last_puts size cmds halloc
  exact ⟨s, hrun, fun cmd alloc hget => hs.get hget alloc, hs.placed.nodup _, hs.bytes⟩

end refinement

/-- A key of one character. -/
def key_of (c : UInt8) : kvs_key_t where
  bytes := c :: List.replicate 63 0
  size := rfl
  terminated := List.mem_cons_of_mem c (List.mem_replicate.mpr ⟨nofun, rfl⟩)

def put_byte (c value : UInt8) : kvs_cmd_t := ⟨KVS_PUT, key_of c, 1, [value], rfl⟩

/-- Two keys in one chain; the first one is removed, the second one overwritten. -/
def two_keys : List (kvs_cmd_t × allocs_t) :=
  [(put_byte 97 1, ⟨true, true, true⟩), (put_byte 98 2, ⟨true, true, true⟩),
    (⟨KVS_RM, key_of 97, 0, [], rfl⟩, ⟨true, true, true⟩), (put_byte 98 3, ⟨true, true, true⟩)]

theorem two_keys_are_stored :
    last_put (two_keys.map Prod.fst) [97] = none ∧ last_put (two_keys.map Prod.fst) [98] = some [3] ∧
      ∃ s, steps step (some (create_kvs_sm 1)) two_keys = some s ∧ IsMap s (two_keys.map Prod.fst) :=
  ⟨by decide, by decide, kvs_is_map 1 two_keys (by decide)⟩

section failures

/-- Every GET answers as before, and `kvs_size` is the same. -/
def Unchanged (s s' : dare_kvs_sm_t) : Prop :=
  (∀ cmd alloc, cmd.type = KVS_GET →
    (apply_kvs_cmd s' cmd alloc).map (fun r => r.2.2) = (apply_kvs_cmd s cmd alloc).map fun r => r.2.2) ∧
  s'.kvs_size = s.kvs_size

/-- A length that changes is counted, whatever else happens. -/
theorem resized_ne {kvs_size : UInt32} {len old : UInt16} (hne : old ≠ len) :
    kvs_size + (len.toUInt32 - old.toUInt32) ≠ kvs_size := by
  intro heq
  have hlen := len.toNat_lt
  have hold := old.toNat_lt
  have hnat : old.toNat ≠ len.toNat := fun h => hne (UInt16.toNat_inj.mp h)
  rw [← UInt32.toNat_inj, UInt32.toNat_add, UInt32.toNat_sub, UInt16.toNat_toUInt32,
    UInt16.toNat_toUInt32] at heq
  have hsize := kvs_size.toNat_lt
  omega

theorem counted_ne {kvs_size : UInt32} {len : UInt16} :
    kvs_size + (SIZEOF_SNAPSHOT_ENTRY + len.toUInt32) ≠ kvs_size := by
  intro heq
  have hlen := len.toNat_lt
  have hentry : SIZEOF_SNAPSHOT_ENTRY.toNat = 66 := rfl
  rw [← UInt32.toNat_inj, UInt32.toNat_add, UInt32.toNat_add, UInt16.toNat_toUInt32, hentry] at heq
  have hsize := kvs_size.toNat_lt
  omega

/-- A PUT that fails because an allocation failed changes nothing exactly if its key is new and the allocation
    of the entry failed. -/
theorem failed_put_iff (s : dare_kvs_sm_t) (cmd : kvs_cmd_t) (alloc : allocs_t) (hput : cmd.type = KVS_PUT)
    {s' : dare_kvs_sm_t} {data : Option sm_data_t} (hfails : apply_kvs_cmd s cmd alloc = some (1, s', data)) :
    Unchanged s s' ↔ lookup_key s.kvs_table cmd.key = none ∧ alloc.entry = false := by
  rw [apply_kvs_cmd, if_pos hput, write_key] at hfails
  cases hlookup : lookup_key s.kvs_table cmd.key with
  | none =>
    simp only [hlookup] at hfails
    cases hentry : alloc.entry with
    | false =>
      simp only [hentry, Bool.not_false, if_true, Option.map_some, Option.some.injEq, Prod.mk.injEq] at hfails
      obtain ⟨-, rfl, -⟩ := hfails
      exact iff_of_true ⟨fun _ _ _ => rfl, rfl⟩ ⟨rfl, rfl⟩
    | true =>
      refine iff_of_false (fun hsame => ?_) nofun
      simp only [hentry, Bool.not_true, Bool.false_eq_true, if_false] at hfails
      split_ifs at hfails
      · simp only [Option.map_some, Option.some.injEq, Prod.mk.injEq] at hfails
        obtain ⟨-, rfl, -⟩ := hfails
        exact counted_ne hsame.2
      · simp at hfails
  | some e =>
    refine iff_of_false (fun hsame => ?_) nofun
    simp only [hlookup] at hfails
    by_cases hlen : e.blob.len = cmd.len
    · rw [if_neg (not_not.mpr hlen)] at hfails
      cases hold : e.blob.data with
      | some old => simp [hold] at hfails
      | none =>
        simp only [hold] at hfails
        split_ifs at hfails
        · simp at hfails
        · simp at hfails
    · rw [if_pos hlen] at hfails
      split_ifs at hfails
      · simp at hfails
      · simp only [Option.map_some, Option.some.injEq, Prod.mk.injEq] at hfails
        obtain ⟨-, rfl, -⟩ := hfails
        exact resized_ne hlen hsame.2

end failures

/-- There is no memory for the entry of a second key. -/
theorem second_key_changes_nothing :
    ∃ s s', steps step (some (create_kvs_sm 1)) [(put_byte 97 1, ⟨true, true, true⟩)] = some s ∧
      apply_kvs_cmd s (put_byte 98 2) ⟨false, true, true⟩ = some (1, s', none) ∧ Unchanged s s' :=
  ⟨_, _, rfl, rfl, (failed_put_iff _ (put_byte 98 2) ⟨false, true, true⟩ rfl rfl).mpr ⟨rfl, rfl⟩⟩

/-- There is no memory for a longer value of the key: it is lost, and counted. -/
theorem longer_value_loses_key :
    ∃ s s', steps step (some (create_kvs_sm 1)) [(put_byte 97 1, ⟨true, true, true⟩)] = some s ∧
      apply_kvs_cmd s ⟨KVS_PUT, key_of 97, 2, [1, 2], rfl⟩ ⟨true, true, false⟩ = some (1, s', none) ∧
      apply_kvs_cmd s ⟨KVS_GET, key_of 97, 0, [], rfl⟩ ⟨true, true, true⟩ = some (0, s, some ⟨1, [1]⟩) ∧
      apply_kvs_cmd s' ⟨KVS_GET, key_of 97, 0, [], rfl⟩ ⟨true, true, true⟩ = none ∧ ¬Unchanged s s' := by
  refine ⟨_, _, rfl, rfl, rfl, rfl, fun hsame => ?_⟩
  exact absurd hsame.2 (by decide)

end dare.kvs
