import ReliableSocket.Dare.Config

open memory

namespace dare.log

def NOOP : UInt8 := 0
def CSM : UInt8 := 1
def CONFIG : UInt8 := 2
def HEAD : UInt8 := 3

def PAGE_SIZE : Nat := 4096
def LOG_SIZE : Nat := 16384 * PAGE_SIZE

/-- `sizeof(dare_log_entry_t)`: a 27-byte header, five bytes of padding and the 16 bytes of the
    `data` union. -/
def SIZEOF_ENTRY : Nat := 48

/-- Offset of the `data` union in an entry. -/
def DATA_OFFSET : Nat := 32

/-- Offset of the command bytes in an entry, after the two bytes of `data.cmd.len`. -/
def CMD_OFFSET : Nat := 34

/-- State machine command; its length is a 16-bit field. -/
structure sm_cmd_t where
  cmd : List UInt8
  len_lt : cmd.length < 2 ^ 16
deriving DecidableEq

def sm_cmd_t.len (c : sm_cmd_t) : UInt16 := UInt16.ofNat c.cmd.length

/-- The types of entries that carry a command: all but NOOP, CONFIG and HEAD. -/
def cmd_type : Type := { type : UInt8 // type ≠ NOOP ∧ type ≠ CONFIG ∧ type ≠ HEAD }
deriving DecidableEq

/-- Type and data of an entry: the `type` field selects the member of the `data` union. -/
inductive log_data where
  | noop
  | config (cid : dare_cid_t)
  | head (offset : UInt64)
  | cmd (type : cmd_type) (cmd : sm_cmd_t)
deriving DecidableEq

def log_data.type : log_data → UInt8
  | .noop => NOOP
  | .config _ => CONFIG
  | .head _ => HEAD
  | .cmd type _ => type.val

structure dare_log_entry_t where
  idx : UInt64
  term : UInt64
  req_id : UInt64
  clt_id : UInt16
  data : log_data
deriving DecidableEq

def dare_log_entry_t.type (entry : dare_log_entry_t) : UInt8 := entry.data.type

/-- Entry determinant. -/
structure dare_log_entry_det_t where
  idx : UInt64
  term : UInt64
  offset : UInt64
deriving DecidableEq, Repr

def MAX_NC_ENTRIES : Nat := 1024
def SIZEOF_DET : Nat := 24

/-- `sizeof(dare_nc_buf_t)`: the length word and the array of determinants. -/
def SIZEOF_NC_BUF : Nat := 8 + SIZEOF_DET * MAX_NC_ENTRIES

/-- Offset of `entries` behind the array `nc_buf`, which directly precedes it in `dare_log_t`. -/
def ENTRIES_OFFSET : Nat := MAX_SERVER_COUNT * SIZEOF_NC_BUF

/-- The log. `mem` holds the arrays `nc_buf` and `entries`, addressed from the start of `nc_buf`;
    the offsets never exceed `len`. The global `prev_log_entry_head` is kept with the log. -/
structure dare_log_t where
  head : Nat
  apply : Nat
  commit : Nat
  end_ : Nat
  tail : Nat
  len : Nat
  mem : Mem
  prev_log_entry_head : Bool

namespace dare_log_t

/-- The circular buffer of the log. -/
def entries (log : dare_log_t) : Mem := fun b => log.mem (ENTRIES_OFFSET + b)

/-- Write bytes into the circular buffer. -/
def write (log : dare_log_t) (offset : Nat) (bs : List UInt8) : dare_log_t :=
  { log with mem := store log.mem (ENTRIES_OFFSET + offset) bs }

end dare_log_t

def log_new : dare_log_t where
  head := 0
  apply := 0
  commit := 0
  end_ := LOG_SIZE
  tail := LOG_SIZE
  len := LOG_SIZE
  mem := fun _ => 0
  prev_log_entry_head := false

/-- Header fields of the entry at an offset. -/
def entry_idx (m : Mem) (entry : Nat) : UInt64 := loadU64 m entry
def entry_term (m : Mem) (entry : Nat) : UInt64 := loadU64 m (entry + 8)
def entry_req_id (m : Mem) (entry : Nat) : UInt64 := loadU64 m (entry + 16)
def entry_clt_id (m : Mem) (entry : Nat) : UInt16 := loadU16 m (entry + 24)
def entry_type (m : Mem) (entry : Nat) : UInt8 := m (entry + 26)
def entry_cmd_len (m : Mem) (entry : Nat) : UInt16 := loadU16 m (entry + DATA_OFFSET)

def is_log_empty (log : dare_log_t) : Bool := decide (log.end_ = log.len)

def is_log_full (log : dare_log_t) : Bool := decide (log.end_ = log.head)

def not_committed_entries (log : dare_log_t) : Bool :=
  !is_log_empty log && decide (log.commit ≠ log.end_)

def not_applied_entries (log : dare_log_t) : Bool :=
  !is_log_empty log && decide (log.apply ≠ log.commit)

def log_fit_entry_header (log : dare_log_t) (offset : Nat) : Bool :=
  decide (SIZEOF_ENTRY ≤ log.len - offset)

/-- The offset of the new entry, or nothing if the log is full. -/
def log_add_new_entry (log : dare_log_t) : Option Nat :=
  if is_log_full log then none
  else if is_log_empty log || !log_fit_entry_header log log.end_ then some 0
  else some log.end_

def log_entry_len (m : Mem) (entry : Nat) : Nat :=
  if entry_type m entry = NOOP ∨ entry_type m entry = CONFIG ∨ entry_type m entry = HEAD then
    SIZEOF_ENTRY
  else SIZEOF_ENTRY + (entry_cmd_len m entry).toNat

def log_fit_entry (log : dare_log_t) (offset entry : Nat) : Bool :=
  decide (log_entry_len log.entries entry ≤ log.len - offset)

def log_offset_end_distance (log : dare_log_t) (offset : Nat) : Nat :=
  if log.end_ = log.len then 0
  else if offset ≤ log.end_ then log.end_ - offset
  else log.len - (offset - log.end_)

/-- The larger offset is closer to the end. -/
def log_is_offset_larger (log : dare_log_t) (loffset roffset : Nat) : Bool :=
  decide (log_offset_end_distance log loffset < log_offset_end_distance log roffset)

/-- The offset of the entry that is met at `offset`, or nothing at the end of the log. -/
def log_get_entry (log : dare_log_t) (offset : Nat) : Option Nat :=
  if is_log_empty log then none
  else if log_offset_end_distance log offset = 0 then none
  else if !log_fit_entry_header log offset then some 0
  else some offset

/-- The step from an entry to the next one, used by the loops that do not look at the data. -/
def log_next_offset (log : dare_log_t) (offset : Nat) : Nat :=
  (if log_fit_entry log offset offset then offset else 0) + log_entry_len log.entries offset

/-- One of the three searches of `log_get_tail`. The loop state is the offset alone, so a search
    that passes more than `len` entries never ends; it gives nothing here. -/
def tail_search (log : dare_log_t) : Nat → Nat → Nat → Option Nat
  | 0, _, _ => none
  | fuel + 1, offset, tail =>
    match log_get_entry log offset with
    | none => some tail
    | some entry => tail_search log fuel (log_next_offset log entry) entry

/-- A search that never ends is modelled as one that finds no tail. -/
def tail_from (log : dare_log_t) (offset : Nat) : Nat :=
  (tail_search log (log.len + 1) offset log.len).getD log.len

def log_get_tail (log : dare_log_t) : Nat :=
  if log.tail ≠ log.len then log.tail
  else if is_log_empty log then log.len
  else if tail_from log log.commit ≠ log.len then tail_from log log.commit
  else if tail_from log log.apply ≠ log.len then tail_from log log.apply
  else tail_from log log.head

/-- The fields `idx` to `type` of an entry. -/
def header_bytes (idx term req_id : UInt64) (clt_id : UInt16) (type : UInt8) : List UInt8 :=
  leBytes 8 idx.toNat ++ (leBytes 8 term.toNat ++ (leBytes 8 req_id.toNat ++
    (leBytes 2 clt_id.toNat ++ [type])))

/-- The last two assignments of `log_append_entry`: new tail and new end. -/
def append_finish (log : dare_log_t) (entry : Nat) (idx : UInt64) : dare_log_t × UInt64 :=
  ({ log with
      tail := log.end_
      end_ := log.end_ + log_entry_len log.entries entry }, idx)

/-- The branch of `log_append_entry` for an entry whose command does not fit at the end: the entry
    is written again at the beginning. -/
def append_restart (log : dare_log_t) (idx term req_id : UInt64) (clt_id : UInt16) (type : UInt8)
    (cmd : sm_cmd_t) : dare_log_t × UInt64 :=
  let log := { log with end_ := 0 }
  match log_add_new_entry log with
  | none => (log, 0)
  | some entry =>
    let log := log.write entry (header_bytes idx term req_id clt_id type)
    let log := log.write (entry + DATA_OFFSET) (leBytes 2 cmd.len.toNat)
    append_finish (log.write (entry + CMD_OFFSET) cmd.cmd) entry idx

/-- The data part of `log_append_entry`, for an entry whose header is already written. -/
def append_data (log : dare_log_t) (entry : Nat) (idx term req_id : UInt64) (clt_id : UInt16)
    (data : log_data) : dare_log_t × UInt64 :=
  match data with
  | .config cid => append_finish (log.write (entry + DATA_OFFSET) cid.bytes) entry idx
  | .head offset => append_finish (log.write (entry + DATA_OFFSET) (leBytes 8 offset.toNat)) entry idx
  | .noop => append_finish log entry idx
  | .cmd type cmd =>
    let log := log.write (entry + DATA_OFFSET) (leBytes 2 cmd.len.toNat)
    if log_fit_entry log log.end_ entry then
      append_finish (log.write (entry + CMD_OFFSET) cmd.cmd) entry idx
    else append_restart log idx term req_id clt_id type.val cmd

/-- The index that the next appended entry gets. -/
def next_idx (log : dare_log_t) : UInt64 :=
  match log_get_entry log log.tail with
  | some last_entry => entry_idx log.entries last_entry + 1
  | none => 1

/-- `log_append_entry` up to the computation of the index. -/
def append_prepare (log : dare_log_t) (data : log_data) : dare_log_t :=
  let log := if data.type ≠ HEAD then { log with prev_log_entry_head := false } else log
  if log.tail = log.len then { log with tail := log_get_tail log } else log

/-- Append an entry; the result is the new log and the index of the entry, 0 if the log is full. -/
def log_append_entry (log : dare_log_t) (term req_id : UInt64) (clt_id : UInt16) (data : log_data) :
    dare_log_t × UInt64 :=
  let log := append_prepare log data
  let idx := next_idx log
  match log_add_new_entry log with
  | none => (log, 0)
  | some entry =>
    let log := log.write entry (header_bytes idx term req_id clt_id data.type)
    let log := if !log_fit_entry_header log log.end_ then { log with end_ := 0 } else log
    append_data log entry idx term req_id clt_id data

end dare.log
