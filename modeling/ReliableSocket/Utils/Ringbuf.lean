import ReliableSocket.Circular

open memory ring

namespace ringbuf

/-- A ring buffer. `head` and `tail` are relative to the start of its memory, in which the byte before
    the tail stays free. -/
structure ringbuf_t where
  buf : Mem
  head : Nat
  tail : Nat
  size : Nat

/-- The memory is not cleared; `buf` is what it holds. -/
def ringbuf_new (buf : Mem) (capacity : Nat) : ringbuf_t where
  buf := buf
  head := 0
  tail := 0
  size := capacity + 1

def ringbuf_capacity (rb : ringbuf_t) : Nat := rb.size - 1

def ringbuf_bytes_free (rb : ringbuf_t) : Nat :=
  if rb.head ≥ rb.tail then ringbuf_capacity rb - (rb.head - rb.tail)
  else rb.tail - rb.head - 1

def ringbuf_bytes_used (rb : ringbuf_t) : Nat := ringbuf_capacity rb - ringbuf_bytes_free rb

def ringbuf_nextp (rb : ringbuf_t) (p : Nat) : Nat := (p + 1) % rb.size

/-- The loop of `ringbuf_memcpy_into`: as many bytes as there are up to the end of the memory, then on
    from its start. Each round copies at least one byte. -/
def into_loop : Nat → ringbuf_t → List UInt8 → ringbuf_t
  | 0, dst, _ => dst
  | fuel + 1, dst, src =>
    if src.length = 0 then dst
    else
      let n := min (dst.size - dst.head) src.length
      let head := dst.head + n
      into_loop fuel
        { dst with
          buf := store dst.buf dst.head (src.take n)
          head := if head = dst.size then 0 else head }
        (src.drop n)

/-- Bytes that do not fit overwrite the oldest ones. -/
def ringbuf_memcpy_into (dst : ringbuf_t) (src : List UInt8) : ringbuf_t :=
  let rb := into_loop src.length dst src
  if src.length > ringbuf_bytes_free dst then { rb with tail := ringbuf_nextp rb rb.head } else rb

/-- The loop of `ringbuf_memcpy_from`. -/
def from_loop : Nat → ringbuf_t → Nat → List UInt8 × ringbuf_t
  | 0, src, _ => ([], src)
  | fuel + 1, src, count =>
    if count = 0 then ([], src)
    else
      let n := min (src.size - src.tail) count
      let tail := src.tail + n
      let r := from_loop fuel { src with tail := if tail = src.size then 0 else tail } (count - n)
      (load src.buf src.tail n ++ r.1, r.2)

/-- Nothing is copied if there are not enough bytes. -/
def ringbuf_memcpy_from (src : ringbuf_t) (count : Nat) : Option (List UInt8 × ringbuf_t) :=
  if count > ringbuf_bytes_used src then none else some (from_loop count src count)

/-- Head and tail point into the memory. -/
structure Valid (rb : ringbuf_t) : Prop where
  head_lt : rb.head < rb.size
  tail_lt : rb.tail < rb.size

/-- The bytes in the buffer, oldest first. -/
def contents (rb : ringbuf_t) : List UInt8 := cload rb.buf rb.size rb.tail (ringbuf_bytes_used rb)

section

variable {rb : ringbuf_t}

theorem valid_new (buf : Mem) (capacity : Nat) : Valid (ringbuf_new buf capacity) :=
  ⟨Nat.succ_pos _, Nat.succ_pos _⟩

theorem contents_of_empty (hempty : rb.head = rb.tail) : contents rb = [] := by
  simp [contents, ringbuf_bytes_used, ringbuf_bytes_free, ringbuf_capacity, hempty]

theorem contents_new (buf : Mem) (capacity : Nat) : contents (ringbuf_new buf capacity) = [] :=
  contents_of_empty rfl

/-- Used and free bytes, as distances around the buffer. -/
theorem Valid.bytes (hrb : Valid rb) :
    ringbuf_bytes_used rb = ring.dist rb.size rb.tail rb.head ∧
      ringbuf_bytes_used rb + ringbuf_bytes_free rb + 1 = rb.size := by
  obtain ⟨hhead, htail⟩ := hrb
  unfold ringbuf_bytes_used ringbuf_bytes_free ringbuf_capacity
  obtain ⟨hle, hdist⟩ | ⟨hlt, hdist⟩ := dist_cases rb.size rb.tail rb.head
  · rw [if_pos hle]
    omega
  · rw [if_neg (by omega)]
    omega

@[simp] theorem contents_length (rb : ringbuf_t) : (contents rb).length = ringbuf_bytes_used rb := by
  simp [contents]

theorem Valid.head_eq (hrb : Valid rb) : rb.head = (rb.tail + ringbuf_bytes_used rb) % rb.size := by
  rw [hrb.bytes.1, add_dist_mod hrb.tail_lt hrb.head_lt]

/-- Wrapping is what the remainder does, for a step that does not go past the end. -/
theorem wrap_eq {size p n : Nat} (hle : p + n ≤ size) :
    (if p + n = size then 0 else p + n) = (p + n) % size := by
  split
  · rename_i heq
    rw [heq, Nat.mod_self]
  · rw [Nat.mod_eq_of_lt (by omega)]

/-- The loop writes all bytes from the head on, whatever the number of rounds. -/
theorem into_loop_eq {fuel : Nat} {src : List UInt8} (hhead : rb.head < rb.size)
    (hfuel : src.length ≤ fuel) (hfits : src.length ≤ rb.size) :
    into_loop fuel rb src =
      { rb with buf := cstore rb.buf rb.size rb.head src, head := (rb.head + src.length) % rb.size } := by
  induction fuel generalizing rb src with
  | zero =>
    obtain rfl : src = [] := List.length_eq_zero_iff.mp (by omega)
    simp [into_loop, Nat.mod_eq_of_lt hhead]
  | succ fuel ih =>
    rw [into_loop]
    split
    · rename_i hnil
      obtain rfl : src = [] := List.length_eq_zero_iff.mp hnil
      simp [Nat.mod_eq_of_lt hhead]
    · rename_i hcons
      generalize hn : min (rb.size - rb.head) src.length = n
      have htake : (src.take n).length = n := by
        rw [List.length_take]
        omega
      have hdrop : (src.drop n).length = src.length - n := List.length_drop ..
      have hwrap := wrap_eq (show rb.head + n ≤ rb.size by omega)
      have hchunk : store rb.buf rb.head (src.take n) = cstore rb.buf rb.size rb.head (src.take n) :=
        (cstore_eq_store (by omega)).symm
      have hparts := cstore_append (m := rb.buf) hhead
        (show (src.take n).length + (src.drop n).length ≤ rb.size by omega)
      rw [htake, List.take_append_drop] at hparts
      simp only [hwrap, hchunk]
      rw [ih (Nat.mod_lt _ (by omega)) (by rw [hdrop]; omega) (by simp only [hdrop]; omega)]
      have hround : ((rb.head + n) % rb.size + (src.drop n).length) % rb.size =
          (rb.head + src.length) % rb.size := by
        rw [Nat.mod_add_mod, hdrop]
        congr 1
        omega
      simp only [hparts, hround]

/-- Bytes that fit are put behind those that are there. -/
theorem memcpy_into_spec (src : List UInt8) (hrb : Valid rb) (hfits : src.length ≤ ringbuf_bytes_free rb) :
    Valid (ringbuf_memcpy_into rb src) ∧
      contents (ringbuf_memcpy_into rb src) = contents rb ++ src ∧
      (ringbuf_memcpy_into rb src).size = rb.size ∧ (ringbuf_memcpy_into rb src).tail = rb.tail := by
  obtain ⟨hused, hsum⟩ := hrb.bytes
  have hpos : 0 < rb.size := by omega
  have heq : ringbuf_memcpy_into rb src =
      { rb with buf := cstore rb.buf rb.size rb.head src, head := (rb.head + src.length) % rb.size } := by
    rw [ringbuf_memcpy_into, into_loop_eq hrb.head_lt (Nat.le_refl _) (by omega)]
    exact if_neg (by omega)
  have hvalid : Valid (ringbuf_memcpy_into rb src) := by
    rw [heq]
    exact ⟨Nat.mod_lt _ hpos, hrb.tail_lt⟩
  have husedNew : ringbuf_bytes_used (ringbuf_memcpy_into rb src) =
      ringbuf_bytes_used rb + src.length := by
    rw [hvalid.bytes.1, heq]
    change ring.dist rb.size rb.tail ((rb.head + src.length) % rb.size) = _
    rw [hrb.head_eq, Nat.mod_add_mod, Nat.add_assoc, dist_mod hrb.tail_lt (by omega)]
  refine ⟨hvalid, ?_, by rw [heq], by rw [heq]⟩
  rw [contents, husedNew, heq]
  change cload (cstore rb.buf rb.size rb.head src) rb.size rb.tail _ = _
  rw [hrb.head_eq, cload_cstore hrb.tail_lt (by omega), contents]

theorem from_loop_eq {fuel count : Nat} (htail : rb.tail < rb.size) (hfuel : count ≤ fuel)
    (hfits : count ≤ rb.size) :
    from_loop fuel rb count =
      (cload rb.buf rb.size rb.tail count, { rb with tail := (rb.tail + count) % rb.size }) := by
  induction fuel generalizing rb count with
  | zero =>
    obtain rfl : count = 0 := by omega
    simp [from_loop, Nat.mod_eq_of_lt htail]
  | succ fuel ih =>
    rw [from_loop]
    split
    · rename_i hzero
      subst hzero
      simp [Nat.mod_eq_of_lt htail]
    · rename_i hcount
      generalize hn : min (rb.size - rb.tail) count = n
      have hwrap := wrap_eq (show rb.tail + n ≤ rb.size by omega)
      have hchunk : load rb.buf rb.tail n = cload rb.buf rb.size rb.tail n :=
        (cload_eq_load (by omega)).symm
      have hparts := cload_add rb.buf rb.size rb.tail n (count - n)
      rw [Nat.add_sub_cancel' (by omega)] at hparts
      simp only [hwrap, hchunk]
      rw [ih (Nat.mod_lt _ (by omega)) (by omega) (by simp only; omega)]
      have hround : ((rb.tail + n) % rb.size + (count - n)) % rb.size = (rb.tail + count) % rb.size := by
        rw [Nat.mod_add_mod]
        congr 1
        omega
      simp only [hparts, hround]

/-- The oldest bytes are taken out. -/
theorem memcpy_from_spec {count : Nat} (hrb : Valid rb) (hcount : count ≤ ringbuf_bytes_used rb) :
    ∃ rb', ringbuf_memcpy_from rb count = some ((contents rb).take count, rb') ∧ Valid rb' ∧
      contents rb' = (contents rb).drop count ∧ rb'.size = rb.size := by
  obtain ⟨hused, hsum⟩ := hrb.bytes
  have hsplit : ringbuf_bytes_used rb = count + (ringbuf_bytes_used rb - count) := by omega
  have hcontents : contents rb = cload rb.buf rb.size rb.tail count ++
      cload rb.buf rb.size ((rb.tail + count) % rb.size) (ringbuf_bytes_used rb - count) := by
    rw [contents, ← cload_add, ← hsplit]
  have hvalid : Valid { rb with tail := (rb.tail + count) % rb.size } :=
    ⟨hrb.head_lt, Nat.mod_lt _ (by omega)⟩
  refine ⟨{ rb with tail := (rb.tail + count) % rb.size }, ?_, hvalid, ?_, rfl⟩
  · rw [ringbuf_memcpy_from, if_neg (by omega), from_loop_eq hrb.tail_lt (Nat.le_refl _) (by omega), hcontents,
      List.take_left' (by simp)]
  · have husedNew : ringbuf_bytes_used { rb with tail := (rb.tail + count) % rb.size } =
        ringbuf_bytes_used rb - count := by
      rw [hvalid.bytes.1]
      change ring.dist rb.size ((rb.tail + count) % rb.size) rb.head = _
      have hhead : rb.head = ((rb.tail + count) % rb.size + (ringbuf_bytes_used rb - count)) % rb.size := by
        rw [Nat.mod_add_mod, Nat.add_assoc, ← hsplit, ← hrb.head_eq]
      rw [hhead, dist_mod (Nat.mod_lt _ (by omega)) (by omega)]
    rw [contents, husedNew, hcontents, List.drop_left' (by simp)]

/-- Writing never leaves the memory, even if it overwrites the oldest bytes. -/
theorem Valid.memcpy_into (hrb : Valid rb) (src : List UInt8) :
    Valid (ringbuf_memcpy_into rb src) ∧ (ringbuf_memcpy_into rb src).size = rb.size := by
  have hloop : ∀ fuel (dst : ringbuf_t) (bs : List UInt8), Valid dst →
      Valid (into_loop fuel dst bs) ∧ (into_loop fuel dst bs).size = dst.size := by
    intro fuel
    induction fuel with
    | zero => exact fun dst bs hdst => ⟨hdst, rfl⟩
    | succ fuel ih =>
      intro dst bs hdst
      have hhead := hdst.head_lt
      rw [into_loop]
      split
      · exact ⟨hdst, rfl⟩
      · refine ih _ _ ⟨?_, hdst.tail_lt⟩
        simp only
        split <;> omega
  obtain ⟨hvalid, hsize⟩ := hloop src.length rb src hrb
  rw [ringbuf_memcpy_into]
  split
  · refine ⟨⟨hvalid.head_lt, ?_⟩, hsize⟩
    exact Nat.mod_lt _ (Nat.lt_of_le_of_lt (Nat.zero_le _) hvalid.head_lt)
  · exact ⟨hvalid, hsize⟩

/-- Reading moves the tail only, within the memory. -/
theorem Valid.from_loop (hrb : Valid rb) (fuel count : Nat) :
    Valid (from_loop fuel rb count).2 ∧ (from_loop fuel rb count).2.size = rb.size ∧
      (from_loop fuel rb count).2.head = rb.head := by
  induction fuel generalizing rb count with
  | zero => exact ⟨hrb, rfl, rfl⟩
  | succ fuel ih =>
    have htail := hrb.tail_lt
    rw [ringbuf.from_loop]
    split
    · exact ⟨hrb, rfl, rfl⟩
    · have hnext : Valid { rb with
          tail := if rb.tail + min (rb.size - rb.tail) count = rb.size then 0
            else rb.tail + min (rb.size - rb.tail) count } := by
        refine ⟨hrb.head_lt, ?_⟩
        simp only
        split <;> omega
      exact ih hnext _

/-- What is read through the tail pointer, if it does not go past the end of the memory. -/
theorem load_tail {n : Nat} (hn : n ≤ ringbuf_bytes_used rb) (hend : rb.tail + n ≤ rb.size) :
    load rb.buf rb.tail n = (contents rb).take n := by
  have hsplit : ringbuf_bytes_used rb = n + (ringbuf_bytes_used rb - n) := by omega
  rw [contents, hsplit, cload_add, List.take_left' (by simp), cload_eq_load hend]

end
end ringbuf
