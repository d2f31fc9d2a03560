import ReliableSocket.Memory

open memory

namespace ring

/-- Bytes passed when going from offset `a` to offset `b` in a circular buffer of `len` bytes. -/
def dist (len a b : Nat) : Nat :=
  if a ≤ b then b - a else len - (a - b)

theorem dist_cases (len a b : Nat) :
    (a ≤ b ∧ dist len a b = b - a) ∨ (b < a ∧ dist len a b = len - (a - b)) := by
  unfold dist
  by_cases hle : a ≤ b
  · simp [hle]
  · simp [hle]
    omega

@[simp] theorem dist_self (len a : Nat) : dist len a a = 0 := by
  simp [dist]

/-- There and back is once round. -/
theorem dist_add_dist {len a b : Nat} (ha : a ≤ len) (hb : b < len) (hne : a ≠ b) :
    dist len a b + dist len b a = len := by
  have hthere := dist_cases len a b
  have hback := dist_cases len b a
  omega

/-- The way from `a` to `b` goes on to `c` exactly if, from `b` on, `c` is reached before `a`. -/
theorem dist_add_iff {len a b c : Nat} (ha : a ≤ len) (hb : b < len) (hc : c < len)
    (hpos : dist len a b ≠ 0) :
    dist len a b + dist len b c = dist len a c ↔ dist len b c < dist len b a := by
  have hback := dist_cases len b a
  have hall := dist_cases len a c
  obtain ⟨hab, hfirst⟩ | ⟨hab, hfirst⟩ := dist_cases len a b
  · obtain ⟨hbc, hsecond⟩ | ⟨hbc, hsecond⟩ := dist_cases len b c
    · omega
    · omega
  · obtain ⟨hbc, hsecond⟩ | ⟨hbc, hsecond⟩ := dist_cases len b c
    · omega
    · omega

/-- What is nearer to `c` than `a` lies on the way from `a` to `c`. -/
theorem dist_le_of_dist_le {len a b c : Nat} (ha : a ≤ len) (hb : b < len) (hc : c < len)
    (hle : dist len b c ≤ dist len a c) : dist len b c + dist len a b = dist len a c := by
  have hnear := dist_cases len b c
  have hfar := dist_cases len a c
  have hway := dist_cases len a b
  omega

/-- The offset lies on the way round from `start` to `stop`. -/
def Between (start stop b : Nat) : Prop :=
  if start < stop then start ≤ b ∧ b < stop else start ≤ b ∨ b < stop

/-- Variable-length records with a header of fixed size. `Stored` says that a whole record stands
    at an offset, `Header` that its header does; both depend only on the bytes they cover, and on
    these byte by byte. -/
structure RecordFormat (α : Type) where
  header : Nat
  size : α → Nat
  Stored : Mem → Nat → α → Prop
  Header : Mem → Nat → α → Prop
  header_pos : 0 < header
  header_le_size : ∀ x, header ≤ size x
  stored_congr : ∀ {m m' : Mem} {a : Nat} {x : α},
    (∀ b, a ≤ b → b < a + size x → m b = m' b) → Stored m a x → Stored m' a x
  header_congr : ∀ {m m' : Mem} {a : Nat} {x : α},
    (∀ b, a ≤ b → b < a + header → m b = m' b) → Header m a x → Header m' a x
  stored_header : ∀ {m : Mem} {a : Nat} {x : α}, Stored m a x → Header m a x
  stored_mixed : ∀ {m₁ m₂ m : Mem} {a : Nat} {x : α}, Mixed m₁ m₂ m →
    Stored m₁ a x → Stored m₂ a x → Stored m a x
  header_mixed : ∀ {m₁ m₂ m : Mem} {a : Nat} {x : α}, Mixed m₁ m₂ m →
    Header m₁ a x → Header m₂ a x → Header m a x

namespace RecordFormat

variable {α : Type} (fmt : RecordFormat α) (len : Nat)

/-- Where a record written at offset `o` starts: at `o` if it fits before the buffer's end, else at
    the beginning of the buffer. -/
def place (o : Nat) (x : α) : Nat :=
  if o + fmt.size x ≤ len then o else 0

/-- The offset after the record `x` written at `o`. -/
def next (o : Nat) (x : α) : Nat :=
  fmt.place len o x + fmt.size x

/-- The bytes that writing `x` at `o` uses up, the padding before a wrap included. -/
def cost (o : Nat) (x : α) : Nat :=
  if o + fmt.size x ≤ len then fmt.size x else len - o + fmt.size x

/-- The offset after a sequence of records written from `o` on. -/
def advance : Nat → List α → Nat
  | o, [] => o
  | o, x :: xs => advance (fmt.next len o x) xs

/-- The bytes that a sequence of records written from `o` on uses up. -/
def span : Nat → List α → Nat
  | _, [] => 0
  | o, x :: xs => fmt.cost len o x + span (fmt.next len o x) xs

/-- The buffer holds the records `xs` from offset `o` on. A record that wraps leaves its header
    behind if there was place for it, and no record ends exactly at the buffer's end. -/
def Holds (m : Mem) : Nat → List α → Prop
  | _, [] => True
  | o, x :: xs =>
    (o + fmt.header ≤ len → fmt.Header m o x) ∧ fmt.Stored m (fmt.place len o x) x ∧
      fmt.next len o x < len ∧ Holds m (fmt.next len o x) xs

/-- A record either fits before the buffer's end, or it is written at the beginning. -/
theorem write_cases (o : Nat) (x : α) :
    (o + fmt.size x ≤ len ∧ fmt.place len o x = o ∧ fmt.next len o x = o + fmt.size x ∧
      fmt.cost len o x = fmt.size x) ∨
    (len < o + fmt.size x ∧ fmt.place len o x = 0 ∧ fmt.next len o x = fmt.size x ∧
      fmt.cost len o x = len - o + fmt.size x) := by
  unfold next place cost
  by_cases hfit : o + fmt.size x ≤ len
  · simp [hfit]
  · simp [hfit]
    omega

theorem size_pos (x : α) : 0 < fmt.size x :=
  Nat.lt_of_lt_of_le fmt.header_pos (fmt.header_le_size x)

theorem cost_pos (o : Nat) (x : α) : 0 < fmt.cost len o x := by
  have hsize := fmt.size_pos x
  unfold cost
  split <;> omega

theorem dist_lt_cost_of_header {o b : Nat} (x : α) (hfits : o + fmt.header ≤ len)
    (hlow : o ≤ b) (hhigh : b < o + fmt.header) :
    dist len o b < fmt.cost len o x := by
  have hsize := fmt.header_le_size x
  have hdist := dist_cases len o b
  obtain ⟨hfit, -, -, hcost⟩ | ⟨hfit, -, -, hcost⟩ := fmt.write_cases len o x
  · omega
  · omega

variable {fmt len}

@[simp] theorem advance_append (o : Nat) (xs ys : List α) :
    fmt.advance len o (xs ++ ys) = fmt.advance len (fmt.advance len o xs) ys := by
  induction xs generalizing o with
  | nil => rfl
  | cons x xs ih => exact ih (fmt.next len o x)

@[simp] theorem span_append (o : Nat) (xs ys : List α) :
    fmt.span len o (xs ++ ys) = fmt.span len o xs + fmt.span len (fmt.advance len o xs) ys := by
  induction xs generalizing o with
  | nil => simp [span, advance]
  | cons x xs ih => simp [span, advance, ih, Nat.add_assoc]

@[simp] theorem span_singleton (o : Nat) (x : α) : fmt.span len o [x] = fmt.cost len o x := by
  simp [span]

theorem holds_append {m : Mem} {o : Nat} {xs ys : List α} :
    fmt.Holds len m o (xs ++ ys) ↔
      fmt.Holds len m o xs ∧ fmt.Holds len m (fmt.advance len o xs) ys := by
  induction xs generalizing o with
  | nil => simp [Holds, advance]
  | cons x xs ih => simp [Holds, advance, ih, and_assoc]

theorem advance_lt {m : Mem} {o : Nat} {xs : List α} (hholds : fmt.Holds len m o xs) (ho : o < len) :
    fmt.advance len o xs < len := by
  induction xs generalizing o with
  | nil => exact ho
  | cons x xs ih => exact ih hholds.2.2.2 hholds.2.2.1

theorem advance_le {m : Mem} {o : Nat} {xs : List α} (hholds : fmt.Holds len m o xs) (ho : o ≤ len) :
    fmt.advance len o xs ≤ len := by
  cases xs with
  | nil => exact ho
  | cons x xs =>
    have hlt : fmt.advance len (fmt.next len o x) xs < len :=
      advance_lt hholds.2.2.2 hholds.2.2.1
    exact Nat.le_of_lt hlt

/-- Going past one record adds its cost to the distance, as long as the way does not go round. -/
theorem dist_next {o b : Nat} {x : α} (ho : o ≤ len) (hnext : fmt.next len o x ≤ len)
    (hway : fmt.cost len o x + dist len (fmt.next len o x) b < len) :
    dist len o b = fmt.cost len o x + dist len (fmt.next len o x) b := by
  have hfar := dist_cases len o b
  have hnear := dist_cases len (fmt.next len o x) b
  obtain ⟨hfit, -, hoff, hcost⟩ | ⟨hfit, -, hoff, hcost⟩ := fmt.write_cases len o x
  · omega
  · omega

/-- Past a record that lies on the way the distance is shorter by its cost. -/
theorem dist_next_sub {o b : Nat} {x : α} (ho : o ≤ len) (hb : b < len)
    (hnext : fmt.next len o x < len) (hway : fmt.cost len o x ≤ dist len o b) :
    dist len (fmt.next len o x) b = dist len o b - fmt.cost len o x := by
  have hfar := dist_cases len o b
  have hnear := dist_cases len (fmt.next len o x) b
  obtain ⟨hfit, -, hoff, hcost⟩ | ⟨hfit, -, hoff, hcost⟩ := fmt.write_cases len o x
  · omega
  · omega

theorem next_le {o : Nat} {x : α} (hsize : fmt.size x ≤ len) : fmt.next len o x ≤ len := by
  have hcases := fmt.write_cases len o x
  omega

/-- The distance along a sequence of records is the number of bytes the records use up. -/
theorem dist_span_add {o b : Nat} {xs : List α} (ho : o ≤ len) (hsmall : ∀ x ∈ xs, fmt.size x ≤ len)
    (hway : fmt.span len o xs + dist len (fmt.advance len o xs) b < len) :
    dist len o b = fmt.span len o xs + dist len (fmt.advance len o xs) b := by
  induction xs generalizing o with
  | nil => simp [span, advance]
  | cons x xs ih =>
    have hnext : fmt.next len o x ≤ len := next_le (hsmall x List.mem_cons_self)
    simp only [span, advance] at hway ⊢
    have htail := ih hnext (fun y hy => hsmall y (List.mem_cons_of_mem x hy)) (by omega)
    have hstep := dist_next (b := b) ho hnext (by omega)
    omega

theorem small_of_holds {m : Mem} {o : Nat} {xs : List α} (hholds : fmt.Holds len m o xs) :
    ∀ x ∈ xs, fmt.size x ≤ len := by
  induction xs generalizing o with
  | nil => exact fun x hx => absurd hx List.not_mem_nil
  | cons y xs ih =>
    obtain ⟨-, -, hnext, hrest⟩ := hholds
    intro x hx
    obtain rfl | hx := List.mem_cons.mp hx
    · exact Nat.le_of_lt (Nat.lt_of_le_of_lt (Nat.le_add_left _ _) hnext)
    · exact ih hrest x hx

theorem dist_advance_add {m : Mem} {o b : Nat} {xs : List α} (ho : o ≤ len)
    (hholds : fmt.Holds len m o xs)
    (hway : fmt.span len o xs + dist len (fmt.advance len o xs) b < len) :
    dist len o b = fmt.span len o xs + dist len (fmt.advance len o xs) b :=
  dist_span_add ho (small_of_holds hholds) hway

/-- The offset after a sequence of records is as far away as the records are long. -/
theorem dist_advance {m : Mem} {o : Nat} {xs : List α} (ho : o ≤ len)
    (hholds : fmt.Holds len m o xs) (hspan : fmt.span len o xs < len) :
    dist len o (fmt.advance len o xs) = fmt.span len o xs := by
  have hadd := dist_advance_add (b := fmt.advance len o xs) ho hholds (by simpa using hspan)
  simpa using hadd

theorem dist_lt_cost_of_record {o b : Nat} {x : α} (hcost : fmt.cost len o x < len)
    (hlow : fmt.place len o x ≤ b) (hhigh : b < fmt.next len o x) :
    dist len o b < fmt.cost len o x := by
  have hdist := dist_cases len o b
  obtain ⟨hfit, hplace, hnext, hsize⟩ | ⟨hfit, hplace, hnext, hsize⟩ := fmt.write_cases len o x
  · omega
  · omega

/-- The records held from `o` on depend only on the bytes they span. -/
theorem holds_congr {m m' : Mem} {o : Nat} {xs : List α} (ho : o ≤ len)
    (hspan : fmt.span len o xs < len)
    (hagree : ∀ b, b < len → dist len o b < fmt.span len o xs → m b = m' b)
    (hholds : fmt.Holds len m o xs) :
    fmt.Holds len m' o xs := by
  induction xs generalizing o with
  | nil => trivial
  | cons x xs ih =>
    obtain ⟨hheader, hstored, hnext, hrest⟩ := hholds
    simp only [span] at hspan hagree
    refine ⟨fun hfits => fmt.header_congr ?_ (hheader hfits), fmt.stored_congr ?_ hstored, hnext, ?_⟩
    · intro b hlow hhigh
      have hnear := fmt.dist_lt_cost_of_header len x hfits hlow hhigh
      exact hagree b (by omega) (by omega)
    · intro b hlow hhigh
      have hin : b < fmt.next len o x := hhigh
      have hnear := dist_lt_cost_of_record (by omega) hlow hin
      exact hagree b (by omega) (by omega)
    · refine ih (Nat.le_of_lt hnext) (by omega) ?_ hrest
      intro b hb hnear
      have hfar := dist_next ho (Nat.le_of_lt hnext) (b := b) (by omega)
      exact hagree b hb (by omega)

/-- Records stay where they are while one is written behind them, as long as they do not go round the
    buffer together. -/
theorem holds_before {m m' : Mem} {o : Nat} {xs : List α} {x : α} (ho : o ≤ len)
    (hholds : fmt.Holds len m o xs) (hspan : fmt.span len o (xs ++ [x]) ≤ len)
    (hframe : ∀ b, b < len → fmt.cost len (fmt.advance len o xs) x ≤
      dist len (fmt.advance len o xs) b → m b = m' b) :
    fmt.Holds len m' o xs := by
  have hpos := fmt.cost_pos len (fmt.advance len o xs) x
  rw [span_append, span_singleton] at hspan
  refine holds_congr ho (by omega) ?_ hholds
  intro b hb hnear
  apply hframe b hb
  by_contra hclose
  have hfar := dist_advance_add ho hholds (b := b) (by omega)
  omega

/-- Writing one more record after the held ones keeps them, as long as the records together do not
    go round the buffer: only bytes of the new record and of its padding may change. -/
theorem holds_concat {m m' : Mem} {o : Nat} {xs : List α} {x : α} (ho : o ≤ len)
    (hholds : fmt.Holds len m o xs) (hspan : fmt.span len o (xs ++ [x]) < len)
    (hframe : ∀ b, b < len → fmt.cost len (fmt.advance len o xs) x ≤
      dist len (fmt.advance len o xs) b → m b = m' b)
    (hheader : fmt.advance len o xs + fmt.header ≤ len → fmt.Header m' (fmt.advance len o xs) x)
    (hstored : fmt.Stored m' (fmt.place len (fmt.advance len o xs) x) x)
    (hnext : fmt.next len (fmt.advance len o xs) x < len) :
    fmt.Holds len m' o (xs ++ [x]) := by
  rw [holds_append]
  exact ⟨holds_before ho hholds (Nat.le_of_lt hspan) hframe, hheader, hstored, hnext, trivial⟩

/-- Writing at the place of a record gives the same place again, without padding. -/
theorem place_place {o : Nat} {x : α} (hnext : fmt.next len o x < len) :
    fmt.place len (fmt.place len o x) x = fmt.place len o x ∧
      fmt.next len (fmt.place len o x) x = fmt.next len o x ∧
      fmt.cost len (fmt.place len o x) x ≤ fmt.cost len o x := by
  have hagain := fmt.write_cases len (fmt.place len o x) x
  have hfirst := fmt.write_cases len o x
  omega

/-- A reader may also enter at the place of the first record itself. -/
theorem holds_place {m : Mem} {o : Nat} {x : α} {xs : List α}
    (hholds : fmt.Holds len m o (x :: xs)) :
    fmt.Holds len m (fmt.place len o x) (x :: xs) ∧
      fmt.advance len (fmt.place len o x) (x :: xs) = fmt.advance len o (x :: xs) ∧
      fmt.span len (fmt.place len o x) (x :: xs) ≤ fmt.span len o (x :: xs) := by
  obtain ⟨-, hstored, hnext, hrest⟩ := hholds
  obtain ⟨hplace, hnext', hcost⟩ := place_place hnext
  refine ⟨⟨fun _ => ?_, ?_, ?_, ?_⟩, ?_, ?_⟩
  · exact fmt.stored_header hstored
  · rwa [hplace]
  · rwa [hnext']
  · rwa [hnext']
  · simp only [advance, hnext']
  · simp only [span, hnext']
    omega

/-- The offset `b` is the boundary before record number `k` of the records `xs` written from `o` on:
    the offset after the first `k` records, or the place of the record that follows them. -/
def AtRecord (fmt : RecordFormat α) (len o : Nat) (xs : List α) (k b : Nat) : Prop :=
  b = fmt.advance len o (xs.take k) ∨
    ∃ x, xs[k]? = some x ∧ b = fmt.place len (fmt.advance len o (xs.take k)) x

theorem atRecord_cons {o k b : Nat} {x : α} {xs : List α} :
    fmt.AtRecord len o (x :: xs) (k + 1) b ↔ fmt.AtRecord len (fmt.next len o x) xs k b := by
  simp only [AtRecord, List.take_succ_cons, advance, List.getElem?_cons_succ]

theorem AtRecord.append {o k b : Nat} {xs : List α} (hk : k ≤ xs.length) (ys : List α)
    (hat : fmt.AtRecord len o xs k b) : fmt.AtRecord len o (xs ++ ys) k b := by
  unfold AtRecord at hat ⊢
  rw [List.take_append_of_le_length hk]
  refine hat.imp_right fun ⟨x, hx, hb⟩ => ⟨x, ?_, hb⟩
  have hlt := (List.getElem?_eq_some_iff.mp hx).1
  rwa [List.getElem?_append_left hlt]

/-- A reader may enter at any boundary. -/
theorem holds_at {m : Mem} {o k b : Nat} {xs : List α} (hholds : fmt.Holds len m o xs)
    (hk : k ≤ xs.length) (hat : fmt.AtRecord len o xs k b) :
    fmt.Holds len m b (xs.drop k) ∧ fmt.advance len b (xs.drop k) = fmt.advance len o xs ∧
      fmt.span len b (xs.drop k) ≤ fmt.span len o xs := by
  induction xs generalizing o k with
  | nil =>
    obtain rfl : k = 0 := by simpa using hk
    obtain rfl : b = o := by simpa [AtRecord, advance] using hat
    exact ⟨trivial, rfl, Nat.le_refl _⟩
  | cons x xs ih =>
    cases k with
    | zero =>
      obtain rfl | ⟨y, hy, rfl⟩ := hat
      · exact ⟨hholds, rfl, Nat.le_refl _⟩
      · obtain rfl : x = y := by simpa using hy
        exact holds_place hholds
    | succ k =>
      obtain ⟨hrest, hadvance, hspan⟩ := ih hholds.2.2.2 (by simpa using hk) (atRecord_cons.mp hat)
      exact ⟨hrest, hadvance, Nat.le_trans hspan (Nat.le_add_left _ _)⟩

/-- Every boundary but the first lies inside the buffer. -/
theorem at_start_or_lt {m : Mem} {o k b : Nat} {xs : List α} (hholds : fmt.Holds len m o xs)
    (hk : k ≤ xs.length) (hat : fmt.AtRecord len o xs k b) : b = o ∨ b < len := by
  induction xs generalizing o k with
  | nil =>
    obtain rfl : b = o := by simpa [AtRecord, advance] using hat
    exact .inl rfl
  | cons x xs ih =>
    have hnext := hholds.2.2.1
    cases k with
    | zero =>
      obtain rfl | ⟨y, hy, rfl⟩ := hat
      · exact .inl rfl
      · obtain rfl : x = y := by simpa using hy
        exact .inr (Nat.lt_of_le_of_lt (Nat.le_add_right _ _) hnext)
    | succ k =>
      obtain rfl | hlt := ih hholds.2.2.2 (by simpa using hk) (atRecord_cons.mp hat)
      · exact .inr hnext
      · exact .inr hlt

theorem at_le {m : Mem} {o k b : Nat} {xs : List α} (hholds : fmt.Holds len m o xs) (ho : o ≤ len)
    (hk : k ≤ xs.length) (hat : fmt.AtRecord len o xs k b) : b ≤ len := by
  obtain rfl | hlt := at_start_or_lt hholds hk hat
  · exact ho
  · exact Nat.le_of_lt hlt

/-- The boundaries do not depend on where a reader enters. -/
theorem atRecord_of_place {o k b : Nat} {x : α} {xs : List α} (hnext : fmt.next len o x < len)
    (hat : fmt.AtRecord len (fmt.place len o x) (x :: xs) k b) : fmt.AtRecord len o (x :: xs) k b := by
  obtain ⟨hplace, hsame, -⟩ := place_place hnext
  cases k with
  | zero =>
    refine .inr ⟨x, rfl, ?_⟩
    obtain hb | ⟨y, hy, hb⟩ := hat
    · exact hb
    · obtain rfl : x = y := by simpa using hy
      exact hb.trans hplace
  | succ k =>
    rw [atRecord_cons, hsame] at hat
    exact atRecord_cons.mpr hat

/-- Reading on from a boundary leads to boundaries. -/
theorem AtRecord.advance {m : Mem} {o k b n : Nat} {xs : List α} (hholds : fmt.Holds len m o xs)
    (hat : fmt.AtRecord len o xs k b) (hn : n ≤ (xs.drop k).length) :
    fmt.AtRecord len o xs (k + n) (fmt.advance len b ((xs.drop k).take n)) := by
  induction xs generalizing o k with
  | nil =>
    obtain rfl : n = 0 := by simpa using hn
    simpa [RecordFormat.advance] using hat
  | cons x xs ih =>
    cases k with
    | zero =>
      cases n with
      | zero => simpa [RecordFormat.advance] using hat
      | succ n =>
        left
        have hnext : fmt.next len b x = fmt.next len o x := by
          obtain rfl | ⟨y, hy, rfl⟩ := hat
          · rfl
          · obtain rfl : x = y := by simpa using hy
            exact (place_place hholds.2.2.1).2.1
        rw [Nat.zero_add, List.drop_zero, List.take_succ_cons, RecordFormat.advance, hnext,
          RecordFormat.advance]
    | succ k =>
      rw [Nat.add_right_comm, atRecord_cons]
      exact ih hholds.2.2.2 (atRecord_cons.mp hat) (by simpa using hn)

/-- The place of a record does not depend on which offset of the boundary before it is taken. -/
theorem AtRecord.place_eq {m : Mem} {o k b : Nat} {x : α} {xs : List α} (hholds : fmt.Holds len m o xs)
    (hat : fmt.AtRecord len o xs k b) (hx : xs[k]? = some x) :
    fmt.place len b x = fmt.place len (fmt.advance len o (xs.take k)) x := by
  obtain rfl | ⟨y, hy, rfl⟩ := hat
  · rfl
  · obtain rfl : y = x := Option.some.inj (hy.symm.trans hx)
    obtain ⟨hlt, hget⟩ := List.getElem?_eq_some_iff.mp hx
    have hrest := (holds_at hholds (Nat.le_of_lt hlt) (.inl rfl)).1
    rw [List.drop_eq_getElem_cons hlt, hget] at hrest
    exact (place_place hrest.2.2.1).1

/-- A later boundary has less bytes before the end of the records. -/
theorem span_lt_of_at {m : Mem} {o k k' b b' : Nat} {xs : List α} (hholds : fmt.Holds len m o xs)
    (hlt : k < k') (hk' : k' ≤ xs.length) (hat : fmt.AtRecord len o xs k b)
    (hat' : fmt.AtRecord len o xs k' b') :
    fmt.span len b' (xs.drop k') < fmt.span len b (xs.drop k) := by
  induction xs generalizing o k k' with
  | nil =>
    rw [List.length_nil] at hk'
    omega
  | cons x xs ih =>
    obtain ⟨k', rfl⟩ : ∃ n, k' = n + 1 := ⟨k' - 1, by omega⟩
    have hrest := hholds.2.2.2
    have hlength : k' ≤ xs.length := by simpa using hk'
    cases k with
    | zero =>
      have hle := (holds_at hrest hlength (atRecord_cons.mp hat')).2.2
      have hcost := fmt.cost_pos len b x
      have hnext : fmt.next len b x = fmt.next len o x := by
        obtain rfl | ⟨y, hy, rfl⟩ := hat
        · rfl
        · obtain rfl : x = y := by simpa using hy
          exact (place_place hholds.2.2.1).2.1
      rw [List.drop_zero, span, hnext, List.drop_succ_cons]
      omega
    | succ k =>
      exact ih hrest (by omega) hlength (atRecord_cons.mp hat) (atRecord_cons.mp hat')

/-- The converse for a record that left no header behind. -/
theorem holds_of_place {m : Mem} {o : Nat} {x : α} {xs : List α} (hheader : len < o + fmt.header)
    (hholds : fmt.Holds len m 0 (x :: xs)) (hnext : fmt.size x < len) :
    fmt.Holds len m o (x :: xs) := by
  have hsize := fmt.header_le_size x
  have hplace : fmt.place len o x = 0 := if_neg (by omega)
  have hplace₀ : fmt.place len 0 x = 0 := if_pos (by omega)
  simp only [Holds, next, hplace, hplace₀] at hholds ⊢
  exact ⟨fun hfits => absurd hfits (by omega), hholds.2⟩

/-- An interrupted copy between two buffers that hold the same records leaves these records. -/
theorem holds_mixed {m₁ m₂ m : Mem} {o : Nat} {xs : List α} (hmix : Mixed m₁ m₂ m)
    (hfirst : fmt.Holds len m₁ o xs) (hsecond : fmt.Holds len m₂ o xs) : fmt.Holds len m o xs := by
  induction xs generalizing o with
  | nil => trivial
  | cons x xs ih =>
    obtain ⟨hheader₁, hstored₁, hnext, hrest₁⟩ := hfirst
    obtain ⟨hheader₂, hstored₂, -, hrest₂⟩ := hsecond
    exact ⟨fun hfits => fmt.header_mixed hmix (hheader₁ hfits) (hheader₂ hfits),
      fmt.stored_mixed hmix hstored₁ hstored₂, hnext, ih hrest₁ hrest₂⟩

/-- Copying the way from `r` to the end of a sequence of records copies the records. The copy may
    start where the first record starts, or at the beginning of the buffer if the first record
    wraps and leaves no header behind. -/
theorem holds_of_copied {src dst : Mem} {o r : Nat} {x : α} {xs : List α} (ho : o ≤ len)
    (hstart : r = o ∨ (r = 0 ∧ len < o + fmt.header)) (hholds : fmt.Holds len src o (x :: xs))
    (hspan : fmt.span len o (x :: xs) < len)
    (hcopied : ∀ b, b < len → Between r (fmt.advance len o (x :: xs)) b →
      dist len o b < fmt.span len o (x :: xs) → dst b = src b) :
    fmt.Holds len dst o (x :: xs) := by
  have hdist := dist_advance ho hholds hspan
  have hend := advance_le hholds ho
  unfold Between at hcopied
  obtain rfl | ⟨rfl, hheader⟩ := hstart
  · refine holds_congr ho hspan (fun b hb hnear => (hcopied b hb ?_ hnear).symm) hholds
    have hfar := dist_cases len r (fmt.advance len r (x :: xs))
    have hclose := dist_cases len r b
    split <;> omega
  · have hsize := fmt.header_le_size x
    have hnext := hholds.2.2.1
    obtain ⟨hfit, -⟩ | ⟨-, hplace, hnextw, hcostw⟩ := fmt.write_cases len o x
    · omega
    obtain ⟨hholds₀, hadvance, hle⟩ := holds_place hholds
    rw [hplace] at hholds₀ hadvance hle
    have hspan₀ : fmt.span len 0 (x :: xs) < len := by omega
    have hdist₀ := dist_advance (Nat.zero_le _) hholds₀ hspan₀
    have hcost₀ : fmt.cost len 0 x = fmt.size x := if_pos (by omega)
    have hnext₀ : fmt.next len 0 x = fmt.next len o x := by
      have hcases := fmt.write_cases len 0 x
      omega
    have hsum : fmt.span len o (x :: xs) = len - o + fmt.span len 0 (x :: xs) := by
      simp only [span, hcost₀, hnext₀, hcostw]
      omega
    refine holds_of_place hheader (holds_congr (Nat.zero_le _) hspan₀ ?_ hholds₀) (by omega)
    intro b hb hnear
    have hfar := dist_cases len 0 (fmt.advance len 0 (x :: xs))
    have hclose := dist_cases len 0 b
    have hwrap := dist_cases len o b
    refine (hcopied b hb ?_ (by omega)).symm
    split <;> omega

section laid

variable (fmt len)

/-- The headers of the records `xs` stand where a reader looks for them from `o` on. Unlike in a buffer
    that `Holds` the records, one of them may end at the last byte. -/
def Laid (m : Mem) : Nat → List α → Prop
  | _, [] => True
  | o, x :: xs =>
    (o + fmt.header ≤ len → fmt.Header m o x) ∧ fmt.Header m (fmt.place len o x) x ∧
      Laid m (fmt.next len o x) xs

variable {fmt len}

theorem laid_of_holds {m : Mem} {o : Nat} {xs : List α} (hholds : fmt.Holds len m o xs) :
    fmt.Laid len m o xs := by
  induction xs generalizing o with
  | nil => trivial
  | cons x xs ih => exact ⟨hholds.1, fmt.stored_header hholds.2.1, ih hholds.2.2.2⟩

theorem laid_append {m : Mem} {o : Nat} {xs ys : List α} :
    fmt.Laid len m o (xs ++ ys) ↔ fmt.Laid len m o xs ∧ fmt.Laid len m (fmt.advance len o xs) ys := by
  induction xs generalizing o with
  | nil => simp [Laid, advance]
  | cons x xs ih => simp [Laid, advance, ih, and_assoc]

/-- A reader may also enter where the first record stands. -/
theorem laid_place {m : Mem} {o : Nat} {x : α} {xs : List α} (hsize : fmt.size x ≤ len)
    (hlaid : fmt.Laid len m o (x :: xs)) :
    fmt.Laid len m (fmt.place len o x) (x :: xs) ∧
      fmt.advance len (fmt.place len o x) (x :: xs) = fmt.advance len o (x :: xs) ∧
      fmt.span len (fmt.place len o x) (x :: xs) ≤ fmt.span len o (x :: xs) := by
  obtain ⟨-, hplace, -⟩ | ⟨-, hplace, hnext, hcost⟩ := fmt.write_cases len o x
  · rw [hplace]
    exact ⟨hlaid, rfl, Nat.le_refl _⟩
  · obtain ⟨-, hheader, hrest⟩ := hlaid
    obtain ⟨-, hplace₀, hnext₀, hcost₀⟩ | ⟨hwraps, -⟩ := fmt.write_cases len 0 x
    · rw [Nat.zero_add, ← hnext] at hnext₀
      rw [hplace] at hheader
      rw [hplace, Laid, advance, advance, span, span, hplace₀, hnext₀, hcost, hcost₀]
      exact ⟨⟨fun _ => hheader, hheader, hrest⟩, rfl, by omega⟩
    · omega

/-- A reader may enter at any boundary. -/
theorem laid_at {m : Mem} {o k b : Nat} {xs : List α} (hsmall : ∀ x ∈ xs, fmt.size x ≤ len)
    (hlaid : fmt.Laid len m o xs) (ho : o ≤ len) (hk : k ≤ xs.length) (hat : fmt.AtRecord len o xs k b) :
    b ≤ len ∧ fmt.Laid len m b (xs.drop k) ∧ fmt.advance len b (xs.drop k) = fmt.advance len o xs ∧
      fmt.span len b (xs.drop k) ≤ fmt.span len o xs := by
  induction xs generalizing o k with
  | nil =>
    obtain rfl : k = 0 := by simpa using hk
    obtain rfl : b = o := by simpa [AtRecord, advance] using hat
    exact ⟨ho, trivial, rfl, Nat.le_refl _⟩
  | cons x xs ih =>
    have hsize := hsmall x List.mem_cons_self
    cases k with
    | zero =>
      obtain rfl | ⟨y, hy, rfl⟩ := hat
      · exact ⟨ho, hlaid, rfl, Nat.le_refl _⟩
      · obtain rfl : x = y := by simpa using hy
        have hcases := fmt.write_cases len o x
        exact ⟨by simp only [List.take_zero, advance]; omega, laid_place hsize hlaid⟩
    | succ k =>
      obtain ⟨hle, hrest, hadvance, hspan⟩ := ih (fun y hy => hsmall y (List.mem_cons_of_mem x hy))
        hlaid.2.2 (next_le hsize) (by simpa using hk) (atRecord_cons.mp hat)
      exact ⟨hle, hrest, hadvance, Nat.le_trans hspan (Nat.le_add_left _ _)⟩

end laid

section wrap

variable (fmt len)

/-- The number of records that are written before the first one that wraps. -/
def before_wrap : Nat → List α → Nat
  | _, [] => 0
  | o, x :: xs => if o + fmt.size x ≤ len then before_wrap (fmt.next len o x) xs + 1 else 0

variable {fmt len}

theorem before_wrap_le (o : Nat) (xs : List α) : fmt.before_wrap len o xs ≤ xs.length := by
  induction xs generalizing o with
  | nil => exact Nat.le_refl _
  | cons x xs ih =>
    unfold before_wrap
    split
    · exact Nat.succ_le_succ (ih _)
    · exact Nat.zero_le _

/-- Up to the first record that wraps the offset grows by the bytes used up. -/
theorem advance_take_before_wrap {o k : Nat} {xs : List α} (hk : k ≤ fmt.before_wrap len o xs) :
    fmt.advance len o (xs.take k) = o + fmt.span len o (xs.take k) := by
  induction xs generalizing o k with
  | nil => simp [advance, span]
  | cons x xs ih =>
    cases k with
    | zero => simp [advance, span]
    | succ k =>
      unfold before_wrap at hk
      split at hk
      · rename_i hfit
        obtain ⟨-, -, hnext, hcost⟩ | ⟨hwrap, -⟩ := fmt.write_cases len o x
        · rw [List.take_succ_cons, advance, span, ih (Nat.le_of_succ_le_succ hk), hnext, hcost]
          omega
        · omega
      · omega

/-- The records before the first one that wraps fit where they are. -/
theorem fits_of_lt_before_wrap {o k : Nat} {x : α} {xs : List α} (hk : k < fmt.before_wrap len o xs)
    (hx : xs[k]? = some x) : fmt.advance len o (xs.take k) + fmt.size x ≤ len := by
  induction xs generalizing o k with
  | nil => simp at hx
  | cons y xs ih =>
    unfold before_wrap at hk
    split at hk
    · rename_i hfit
      cases k with
      | zero =>
        obtain rfl : y = x := by simpa using hx
        simpa [advance] using hfit
      | succ k => exact ih (Nat.lt_of_succ_lt_succ hk) (by simpa using hx)
    · omega

/-- The first record that wraps, if there is one. -/
theorem getElem_before_wrap {o : Nat} {xs : List α} (hlt : fmt.before_wrap len o xs < xs.length) :
    ∃ x, xs[fmt.before_wrap len o xs]? = some x ∧
      len < fmt.advance len o (xs.take (fmt.before_wrap len o xs)) + fmt.size x := by
  induction xs generalizing o with
  | nil => simp at hlt
  | cons x xs ih =>
    by_cases hfit : o + fmt.size x ≤ len
    · have hcount : fmt.before_wrap len o (x :: xs) = fmt.before_wrap len (fmt.next len o x) xs + 1 :=
        if_pos hfit
      rw [hcount] at hlt ⊢
      obtain ⟨y, hy, hwrap⟩ := ih (Nat.lt_of_succ_lt_succ hlt)
      exact ⟨y, by simpa using hy, by simpa [advance] using hwrap⟩
    · have hcount : fmt.before_wrap len o (x :: xs) = 0 := if_neg hfit
      rw [hcount]
      exact ⟨x, rfl, by simpa [advance] using hfit⟩

/-- The offset after the first `k` records, before and behind the first one that wraps. -/
theorem wrap_cases {m : Mem} {o k : Nat} {xs : List α} (ho : o ≤ len) (hholds : fmt.Holds len m o xs)
    (hspan : fmt.span len o xs < len) (hk : k ≤ xs.length) :
    (k ≤ fmt.before_wrap len o xs ∧
      fmt.advance len o (xs.take k) = o + fmt.span len o (xs.take k)) ∨
    (fmt.before_wrap len o xs < k ∧ 0 < fmt.advance len o (xs.take k) ∧
      fmt.advance len o (xs.take k) + len = o + fmt.span len o (xs.take k)) := by
  by_cases hle : k ≤ fmt.before_wrap len o xs
  · exact .inl ⟨hle, advance_take_before_wrap hle⟩
  · refine .inr ⟨by omega, ?_⟩
    obtain ⟨x, hx, hwrap⟩ := getElem_before_wrap (show fmt.before_wrap len o xs < xs.length by omega)
    have hoffset := advance_take_before_wrap (Nat.le_refl (fmt.before_wrap len o xs))
    set w := fmt.before_wrap len o xs with hw
    obtain ⟨hlt, rfl⟩ := List.getElem?_eq_some_iff.mp hx
    have hsplit : xs.take k = xs.take w ++ xs[w] :: (xs.drop (w + 1)).take (k - (w + 1)) := by
      conv_lhs => rw [show k = w + (k - w) by omega, List.take_add, List.drop_eq_getElem_cons hlt,
        show k - w = k - (w + 1) + 1 by omega, List.take_succ_cons]
    have hprefix : fmt.Holds len m o (xs.take k) ∧ fmt.span len o (xs.take k) < len := by
      rw [← List.take_append_drop k xs, holds_append] at hholds
      rw [← List.take_append_drop k xs, span_append] at hspan
      exact ⟨hholds.1, by omega⟩
    have hdist := dist_advance ho hprefix.1 hprefix.2
    have hle' := advance_le hprefix.1 ho
    have hlong : len - o + fmt.size xs[w] ≤ fmt.span len o (xs.take k) := by
      obtain ⟨hfit, -⟩ | ⟨-, -, -, hcost⟩ :=
        fmt.write_cases len (fmt.advance len o (xs.take w)) xs[w]
      · omega
      · rw [hsplit, span_append, span]
        omega
    have hsize := fmt.size_pos xs[w]
    have hcases := dist_cases len o (fmt.advance len o (xs.take k))
    omega

end wrap

end RecordFormat
end ring
