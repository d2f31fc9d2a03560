import ReliableSocket.Locks
import ReliableSocket.PacketBuffer

open locks run

namespace packet_buffer

inductive spinlock where
  | outgoing_buffer_lock
  | tcp_buffer_lock
deriving DecidableEq, Repr

open spinlock

/-- A call on the packet buffer with its arguments, and the answers that `check_block` gives. -/
inductive call where
  | append_no_op
  | dump_tcp_buffer (check_block : UInt32 → con_id_type → Bool)
  | write_to_tcp_buffer (p : tcp_packet)
  | write_to_packet_buffer (data : List UInt8)
  | packet_buffer_to_buffer

/-- What a call does while it has its locks. -/
def body (s : packet_buffer_t) : call → packet_buffer_t
  | .append_no_op => append_no_op s
  | .dump_tcp_buffer check_block => (dump_tcp_buffer s check_block).2
  | .write_to_tcp_buffer p => write_to_tcp_buffer s p.con_id p.ack p.data
  | .write_to_packet_buffer data => write_to_packet_buffer s data
  | .packet_buffer_to_buffer => (packet_buffer_to_buffer s).2.2

/-- The locks that a call takes and gives back. All exits of `dump_tcp_buffer` give back the two locks
    in the same order, and all exits of `packet_buffer_to_buffer` its one lock. -/
def code (c : call) : List (instr spinlock call) :=
  match c with
  | .append_no_op =>
    [.lock tcp_buffer_lock, .lock outgoing_buffer_lock, .body c, .unlock outgoing_buffer_lock,
      .unlock tcp_buffer_lock]
  | .dump_tcp_buffer _ =>
    [.lock outgoing_buffer_lock, .lock tcp_buffer_lock, .body c, .unlock tcp_buffer_lock,
      .unlock outgoing_buffer_lock]
  | .write_to_tcp_buffer _ => [.lock tcp_buffer_lock, .body c, .unlock tcp_buffer_lock]
  | .write_to_packet_buffer _ | .packet_buffer_to_buffer =>
    [.lock outgoing_buffer_lock, .body c, .unlock outgoing_buffer_lock]

section threads

variable {τ : Type} [DecidableEq τ]

/-- The threads, which lock is whose, and the packet buffer. -/
abbrev Threads (τ : Type) := locks.State τ spinlock call packet_buffer_t

def thread_step (s : Threads τ) (a : locks.Action τ call) : Threads τ := locks.step code body s a

/-- No thread is in a call. -/
def no_calls (τ : Type) (pb : packet_buffer_t) : Threads τ := ⟨fun _ => none, fun _ => [], pb⟩

/-- The next instruction of the thread takes the lock. -/
def waits (s : Threads τ) (t : τ) (l : spinlock) : Prop := (s.rest t).head? = some (.lock l)

/-- Some thread holds `l` and takes `l'` next. -/
def Between (s : Threads τ) (l l' : spinlock) : Prop := ∃ t, s.owner l = some t ∧ waits s t l'

/-- Two threads hold one lock each and wait for the other one. -/
def Deadlock (s : Threads τ) : Prop :=
  Between s outgoing_buffer_lock tcp_buffer_lock ∧ Between s tcp_buffer_lock outgoing_buffer_lock

/-- The first lock of `dump_tcp_buffer` is not taken while an `append_no_op` has only its first one, and
    the other way round. -/
def KeepsOrder (s : Threads τ) : locks.Action τ call → Prop
  | .start _ _ => True
  | .next t =>
    match s.rest t with
    | .lock outgoing_buffer_lock :: .lock tcp_buffer_lock :: _ =>
      s.owner outgoing_buffer_lock = none → ¬Between s tcp_buffer_lock outgoing_buffer_lock
    | .lock tcp_buffer_lock :: .lock outgoing_buffer_lock :: _ =>
      s.owner tcp_buffer_lock = none → ¬Between s outgoing_buffer_lock tcp_buffer_lock
    | _ => True

theorem code_wellFormed (c : call) : WellFormed (code c) := by
  cases c <;> simp [code, WellFormed, Held]

theorem not_held_code (c : call) (l : spinlock) : ¬Held (code c) l := by
  cases c <;> cases l <;> simp [code, Held]

/-- Locks are taken only at the start of a call, and never twice the same. -/
theorem before_lock {c : call} {x : instr spinlock call} {l : spinlock} {rest : List (instr spinlock call)}
    (hsuffix : x :: .lock l :: rest <:+ code c) : ∃ l', l' ≠ l ∧ x = .lock l' := by
  cases c <;> simp [code, List.suffix_cons_iff] at hsuffix <;> simp [hsuffix]

/-- What a thread has left is the end of a call. -/
structure Reached (s : Threads τ) : Prop where
  consistent : Consistent s
  suffix : ∀ t, ∃ c, s.rest t <:+ code c

omit [DecidableEq τ] in
theorem reached_no_calls (pb : packet_buffer_t) : Reached (no_calls τ pb) where
  consistent := ⟨fun _ => trivial, fun _ _ => by simp [no_calls, Held]⟩
  suffix _ := ⟨.append_no_op, List.nil_suffix⟩

theorem Reached.step {s : Threads τ} (hs : Reached s) (a : locks.Action τ call) :
    Reached (thread_step s a) where
  consistent := hs.consistent.step code_wellFormed not_held_code a
  suffix u := by
    cases a with
    | start t c =>
      rw [thread_step, locks.step]
      split
      · by_cases hu : u = t
        · subst hu
          exact ⟨c, by simp⟩
        · simpa [hu] using hs.suffix u
      · exact hs.suffix u
    | next t =>
      change ∃ c, (locks.next body s t).rest u <:+ code c
      obtain hsame | ⟨x, rest, hrest, -, hnext⟩ := next_cases body s t
      · rw [hsame]
        exact hs.suffix u
      · rw [hnext]
        by_cases hu : u = t
        · subst hu
          obtain ⟨c, hc⟩ := hs.suffix u
          rw [hrest] at hc
          exact ⟨c, by simpa using (List.suffix_cons x rest).trans hc⟩
        · simpa [hu] using hs.suffix u

/-- Only a thread that takes the first of its two locks gets between them. -/
theorem Reached.between_step {s : Threads τ} (hs : Reached s) {a : locks.Action τ call} {l l' : spinlock}
    (hbetween : Between (thread_step s a) l l') :
    Between s l l' ∨ ∃ t rest, a = .next t ∧ s.rest t = .lock l :: .lock l' :: rest ∧ s.owner l = none := by
  obtain ⟨u, howner, hwaits⟩ := hbetween
  cases a with
  | start t c =>
    rw [thread_step, locks.step] at howner hwaits
    split at howner
    · rename_i hidle
      rw [if_pos hidle] at hwaits
      -- A thread that starts a call has no lock.
      have hu : u ≠ t := by
        rintro rfl
        have hheld := (hs.consistent.owner l u).mp howner
        rw [hidle] at hheld
        simp [Held] at hheld
      exact .inl ⟨u, howner, by simpa [waits, hu] using hwaits⟩
    · rename_i hbusy
      rw [if_neg hbusy] at hwaits
      exact .inl ⟨u, howner, hwaits⟩
  | next t =>
    change (locks.next body s t).owner l = some u at howner
    change ((locks.next body s t).rest u).head? = some (.lock l') at hwaits
    obtain hsame | ⟨x, rest, hrest, hfree, hnext⟩ := next_cases body s t
    · rw [hsame] at howner hwaits
      exact .inl ⟨u, howner, hwaits⟩
    · rw [hnext] at howner hwaits
      by_cases hu : u = t
      · subst hu
        -- The thread has just moved on to its second lock.
        obtain ⟨c, hc⟩ := hs.suffix u
        obtain ⟨rest, rfl⟩ := List.head?_eq_some_iff.mp (by simpa using hwaits)
        rw [hrest] at hc
        obtain ⟨l₀, hne, rfl⟩ := before_lock hc
        have hl : l ≠ l' := by
          rintro rfl
          have hheld := (hs.consistent.owner_self hrest l).mp howner
          exact hheld.2 (by simp)
        have hfirst : l = l₀ := by
          cases l <;> cases l' <;> cases l₀ <;> simp_all
        subst hfirst
        exact .inr ⟨u, rest, rfl, hrest, by simpa [blocked] using hfree⟩
      · have hwaits' : waits s u l' := by simpa [waits, hu] using hwaits
        exact .inl ⟨u, (hs.consistent.owner_other hrest hfree hu l).mp howner, hwaits'⟩

/-- A thread that takes the first of its two locks is between them, and all others stay where they
    were. -/
theorem Reached.first_lock {s : Threads τ} (hs : Reached s) {t : τ} {l l' : spinlock}
    {rest : List (instr spinlock call)} (hrest : s.rest t = .lock l :: .lock l' :: rest)
    (hfree : s.owner l = none) :
    Between (thread_step s (.next t)) l l' ∧
      (Between s l' l → Between (thread_step s (.next t)) l' l) := by
  have hopen : blocked s (.lock l) = false := by simp [blocked, hfree]
  have hnext : thread_step s (.next t) =
      ⟨owner_after s t (.lock l), Function.update s.rest t (.lock l' :: rest), s.data⟩ := by
    simp [thread_step, locks.step, locks.next, hrest, hopen, data_after]
  rw [hnext]
  constructor
  · exact ⟨t, by simp [owner_after], by simp [waits]⟩
  · rintro ⟨u, howner, hwaits⟩
    -- The other thread has the lock that this one still has to take.
    have hu : u ≠ t := by
      rintro rfl
      have hheld := (hs.consistent.owner l' u).mp howner
      rw [hrest] at hheld
      exact hheld.2 (by simp)
    exact ⟨u, (hs.consistent.owner_other hrest hopen hu l').mpr howner, by simpa [waits, hu] using hwaits⟩

theorem Reached.keeps_order {s : Threads τ} (hs : Reached s) {a : locks.Action τ call}
    (hsafe : ¬Deadlock s) (horder : KeepsOrder s a) : ¬Deadlock (thread_step s a) := by
  rintro ⟨hdump, happend⟩
  obtain hdump₀ | ⟨t, rest, rfl, hrest, hfree⟩ := hs.between_step hdump
  · obtain happend₀ | ⟨t, rest, rfl, hrest, hfree⟩ := hs.between_step happend
    · exact hsafe ⟨hdump₀, happend₀⟩
    · simp only [KeepsOrder, hrest] at horder
      exact horder hfree hdump₀
  · obtain happend₀ | ⟨t', rest', heq, hrest', -⟩ := hs.between_step happend
    · simp only [KeepsOrder, hrest] at horder
      exact horder hfree happend₀
    · obtain rfl : t = t' := by simpa using heq
      rw [hrest] at hrest'
      simp at hrest'

theorem Reached.leaves_order {s : Threads τ} (hs : Reached s) {a : locks.Action τ call}
    (hsafe : ¬Deadlock (thread_step s a)) : KeepsOrder s a := by
  cases a with
  | start t c => trivial
  | next t =>
    rw [KeepsOrder]
    split
    · rename_i hrest
      intro hfree hbetween
      obtain ⟨hfirst, hother⟩ := hs.first_lock hrest hfree
      exact hsafe ⟨hfirst, hother hbetween⟩
    · rename_i hrest
      intro hfree hbetween
      obtain ⟨hfirst, hother⟩ := hs.first_lock hrest hfree
      exact hsafe ⟨hother hbetween, hfirst⟩
    · trivial

omit [DecidableEq τ] in
theorem no_deadlock_at_start (pb : packet_buffer_t) : ¬Deadlock (no_calls τ pb) := by
  rintro ⟨⟨t, howner, -⟩, -⟩
  cases howner

/-- In every interleaving of the instructions of any number of threads, no two of them ever wait for
    each other exactly when `append_no_op` and `dump_tcp_buffer` never take their first lock while the
    other one has only its first lock. -/
theorem locks_never_deadlock (pb : packet_buffer_t) (actions : List (locks.Action τ call)) :
    Always thread_step (fun s => ¬Deadlock s) (no_calls τ pb) actions ↔
      AllOk thread_step KeepsOrder (no_calls τ pb) actions := by
  refine always_iff_allOk (I := fun s => Reached s ∧ ¬Deadlock s) ?_ ?_ (fun s hs => hs.2)
    ⟨reached_no_calls pb, no_deadlock_at_start pb⟩ actions
  · intro s a hs horder
    exact ⟨hs.1.step a, hs.1.keeps_order hs.2 horder⟩
  · intro s a hs hsafe
    exact hs.1.leaves_order hsafe

end threads

/-- The threads of a failover. -/
inductive failover_thread where
  | consensus
  | dump
deriving DecidableEq

/-- A new leader calls `append_no_op` while the dump thread is in `dump_tcp_buffer`. -/
def failover : List (locks.Action failover_thread call) :=
  [.start .consensus .append_no_op, .start .dump (.dump_tcp_buffer fun _ _ => false), .next .consensus,
    .next .dump]

theorem failover_deadlocks :
    Deadlock (steps thread_step (no_calls failover_thread (init_packet_buffer (fun _ => 0) fun _ => 0))
      failover) :=
  ⟨⟨.dump, rfl, rfl⟩, ⟨.consensus, rfl, rfl⟩⟩

end packet_buffer
