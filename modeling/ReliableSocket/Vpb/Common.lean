import ReliableSocket.Memory

open memory

namespace vpb

/-- One direction of a stream socket: the bytes on their way, and how many bytes the next calls of `recv`
    get at most, each number one too low. -/
structure sock where
  bytes : List UInt8
  chunks : List Nat
deriving DecidableEq, Repr

/-- What a call of `recv` for `n` bytes may get. -/
def chunk (chunks : List Nat) (n : Nat) : Nat :=
  match chunks with
  | [] => n
  | c :: _ => min (c + 1) n

/-- The received bytes, whose number is the result; there are none only if the stream has ended. -/
def recv (sk : sock) (n : Nat) : List UInt8 × sock :=
  (sk.bytes.take (chunk sk.chunks n), ⟨sk.bytes.drop (chunk sk.chunks n), sk.chunks.tail⟩)

/-- The bytes of a length in network order. -/
def htonl (n : Nat) : List UInt8 := (leBytes 4 n).reverse

/-- The `int` that has these bytes in network order. -/
def ntohl (bytes : List UInt8) : Int := (BitVec.ofNat 32 (leValue bytes.reverse)).toInt

/-- What a call of `recv_bytes` returns: its result, the length and the buffer. -/
structure received where
  ret : Int
  length : Int
  buf : List UInt8
deriving DecidableEq, Repr

/-- The loop of `recv_bytes`. Each turn gets at least one byte or ends the call. -/
def recv_loop (length : Int) : Nat → sock → Nat → List UInt8 → received × sock
  | 0, sk, _, buf => (⟨0, length, buf⟩, sk)
  | fuel + 1, sk, left, buf =>
    let r := recv sk left
    if r.1.length = 0 then (⟨0, length, buf⟩, r.2)
    else if 0 < left - r.1.length then recv_loop length fuel r.2 (left - r.1.length) (buf ++ r.1)
    else (⟨length, length, buf ++ r.1⟩, r.2)

/-- The part of `recv_bytes` after the length. A negative length makes the allocation fail and then
    the call of `recv`. -/
def recv_data (length : Int) (sk : sock) : received × sock :=
  if length < 0 then (⟨-1, length, []⟩, sk) else recv_loop length (length.toNat + 1) sk length.toNat []

/-- The length field after the first call of `recv`: bytes that have not come are those that the
    variable `tmp` had before. -/
def recv_length (sk : sock) (tmp : UInt32) : List UInt8 :=
  (recv sk 4).1 ++ (leBytes 4 tmp.toNat).drop (recv sk 4).1.length

/-- The two programs with a copy of the functions: the consensus module on the host, and the connection
    manager of the guest. -/
inductive program where
  | host
  | guest
deriving DecidableEq, Repr

/-- The copy of the host ignores the result of the first call of `recv`, that of the guest ends if the
    stream has ended. -/
def recv_bytes (copy : program) (tmp : UInt32) (sk : sock) : received × sock :=
  match copy with
  | .host => recv_data (ntohl (recv_length sk tmp)) (recv sk 4).2
  | .guest =>
    if (recv sk 4).1.length = 0 then (⟨0, 0, []⟩, (recv sk 4).2)
    else recv_data (ntohl (recv_length sk tmp)) (recv sk 4).2

/-- The loop of `send_bytes`: the bytes put on the stream, and the limits of the calls of `send` that are
    left, each one too low. -/
def send_loop : Nat → List Nat → List UInt8 → List UInt8 × List Nat
  | 0, parts, _ => ([], parts)
  | fuel + 1, parts, data =>
    let n := chunk parts data.length
    let r := if 0 < data.length - n then send_loop fuel parts.tail (data.drop n) else ([], parts.tail)
    (data.take n ++ r.1, r.2)

def INT_MAX : Nat := 2 ^ 31 - 1

/-- The length of the data with its field in front must be an `int`. Both programs have the same
    function. -/
def send_bytes (parts : List Nat) (buf : List UInt8) : Option (List UInt8 × List Nat) :=
  let data := htonl buf.length ++ buf
  if INT_MAX < data.length then none else some (send_loop data.length parts data)

/-- The stream of the messages. -/
def send_messages : List Nat → List (List UInt8) → Option (List UInt8)
  | _, [] => some []
  | parts, m :: messages => do
    let r ← send_bytes parts m
    let rest ← send_messages r.2 messages
    return r.1 ++ rest

/-- The results of successive calls, each with what its variable `tmp` holds. -/
def receive (copy : program) : List UInt32 → sock → List received
  | [], _ => []
  | tmp :: tmps, sk => (recv_bytes copy tmp sk).1 :: receive copy tmps (recv_bytes copy tmp sk).2

/-- The limits that are left when `left` bytes have been received. -/
def skip_chunks : List Nat → Nat → List Nat
  | [], _ => []
  | c :: chunks, left => if left ≤ c + 1 then chunks else skip_chunks chunks (left - (c + 1))

/-- The length field of each message is received by one call. -/
def WholeLengths : List Nat → List (List UInt8) → Prop
  | _, [] => True
  | chunks, m :: messages =>
    4 ≤ chunk chunks 4 ∧ WholeLengths (skip_chunks chunks.tail m.length) messages

instance decidableWholeLengths : ∀ chunks messages, Decidable (WholeLengths chunks messages)
  | _, [] => isTrue trivial
  | chunks, m :: messages =>
    have := decidableWholeLengths (skip_chunks chunks.tail m.length) messages
    inferInstanceAs (Decidable (_ ∧ _))

section loops

theorem chunk_le (chunks : List Nat) (n : Nat) : chunk chunks n ≤ n := by
  unfold chunk
  split <;> omega

theorem chunk_pos (chunks : List Nat) {n : Nat} (hn : 0 < n) : 0 < chunk chunks n := by
  unfold chunk
  split <;> omega

/-- All data are put on the stream, in whatever parts. -/
theorem send_loop_bytes {fuel : Nat} (parts : List Nat) {data : List UInt8} (hfuel : data.length ≤ fuel) :
    (send_loop fuel parts data).1 = data := by
  induction fuel generalizing parts data with
  | zero =>
    obtain rfl : data = [] := List.length_eq_zero_iff.mp (by omega)
    rfl
  | succ fuel ih =>
    rw [send_loop]
    have hle := chunk_le parts data.length
    dsimp only
    split
    · rename_i hleft
      have hpos := chunk_pos parts (show 0 < data.length by omega)
      rw [ih parts.tail (by rw [List.length_drop]; omega), List.take_append_drop]
    · rw [List.append_nil, List.take_of_length_le (by omega)]

theorem skip_chunks_done {chunks : List Nat} {left : Nat} (hdone : left ≤ chunk chunks left) :
    skip_chunks chunks left = chunks.tail := by
  cases chunks with
  | nil => rfl
  | cons c chunks =>
    simp only [chunk] at hdone
    rw [skip_chunks, if_pos (by omega), List.tail_cons]

theorem skip_chunks_more {chunks : List Nat} {left : Nat} (hmore : chunk chunks left < left) :
    skip_chunks chunks left = skip_chunks chunks.tail (left - chunk chunks left) := by
  cases chunks with
  | nil => exact absurd hmore (Nat.lt_irrefl left)
  | cons c chunks =>
    simp only [chunk] at hmore ⊢
    rw [skip_chunks, if_neg (by omega), List.tail_cons, Nat.min_eq_left (by omega)]

theorem recv_append {chunks : List Nat} {n : Nat} {body rest : List UInt8} (hn : n ≤ body.length) :
    recv ⟨body ++ rest, chunks⟩ n =
      (body.take (chunk chunks n), ⟨body.drop (chunk chunks n) ++ rest, chunks.tail⟩) := by
  have hle : chunk chunks n ≤ body.length := Nat.le_trans (chunk_le chunks n) hn
  rw [recv, List.take_append_of_le_length hle, List.drop_append_of_le_length hle]

/-- The loop receives the bytes in front of the stream, in whatever chunks. -/
theorem recv_loop_eq {fuel : Nat} {length : Int} {chunks : List Nat} {body rest buf : List UInt8}
    (hbody : 0 < body.length) (hfuel : body.length ≤ fuel) :
    recv_loop length fuel ⟨body ++ rest, chunks⟩ body.length buf =
      (⟨length, length, buf ++ body⟩, ⟨rest, skip_chunks chunks body.length⟩) := by
  induction fuel generalizing chunks body buf with
  | zero => omega
  | succ fuel ih =>
    have hle := chunk_le chunks body.length
    have hpos := chunk_pos chunks hbody
    have hgot : (body.take (chunk chunks body.length)).length = chunk chunks body.length := by
      rw [List.length_take, Nat.min_eq_left hle]
    rw [recv_loop, recv_append (Nat.le_refl _)]
    dsimp only
    rw [hgot, if_neg (by omega)]
    by_cases hmore : 0 < body.length - chunk chunks body.length
    · have hrest : (body.drop (chunk chunks body.length)).length =
          body.length - chunk chunks body.length := List.length_drop
      rw [if_pos hmore, ← hrest, ih (by omega) (by omega), hrest, ← skip_chunks_more (by omega),
        List.append_assoc, List.take_append_drop]
    · rw [if_neg hmore, skip_chunks_done (by omega), List.take_of_length_le (by omega),
        List.drop_of_length_le (by omega), List.nil_append]

end loops

section messages

theorem htonl_length (n : Nat) : (htonl n).length = 4 := by
  rw [htonl, List.length_reverse, leBytes_length]

theorem ntohl_htonl {n : Nat} (hn : n ≤ INT_MAX) : ntohl (htonl n) = n := by
  unfold INT_MAX at hn
  rw [ntohl, htonl, List.reverse_reverse, leValue_leBytes, Nat.mod_eq_of_lt (by omega),
    BitVec.toInt_eq_toNat_of_lt (by rw [BitVec.toNat_ofNat]; omega), BitVec.toNat_ofNat,
    Nat.mod_eq_of_lt (by omega)]

theorem send_bytes_eq (parts : List Nat) {m : List UInt8} (hfits : m.length + 4 ≤ INT_MAX) :
    ∃ left, send_bytes parts m = some (htonl m.length ++ m, left) := by
  have hlength : (htonl m.length ++ m).length = m.length + 4 := by
    rw [List.length_append, htonl_length, Nat.add_comm]
  refine ⟨(send_loop (htonl m.length ++ m).length parts (htonl m.length ++ m)).2, ?_⟩
  rw [send_bytes, if_neg (by omega)]
  exact congrArg some (Prod.ext (send_loop_bytes parts (Nat.le_refl _)) rfl)

theorem send_bytes_none (parts : List Nat) {m : List UInt8} (hlong : INT_MAX < m.length + 4) :
    send_bytes parts m = none := by
  rw [send_bytes, if_pos]
  rw [List.length_append, htonl_length]
  omega

/-- The stream of the messages, each behind its length. -/
def stream (messages : List (List UInt8)) : List UInt8 :=
  messages.flatMap fun m => htonl m.length ++ m

/-- The stream does not depend on the parts in which the bytes are sent. -/
theorem send_messages_eq (parts : List Nat) {messages : List (List UInt8)}
    (hfits : ∀ m ∈ messages, m.length + 4 ≤ INT_MAX) :
    send_messages parts messages = some (stream messages) := by
  induction messages generalizing parts with
  | nil => rfl
  | cons m messages ih =>
    obtain ⟨left, hsend⟩ := send_bytes_eq parts (hfits m (by simp))
    rw [send_messages, hsend]
    simp [ih left fun m' hm' => hfits m' (by simp [hm']), stream]

theorem fits_of_send_messages {parts : List Nat} {messages : List (List UInt8)} {bytes : List UInt8}
    (hsend : send_messages parts messages = some bytes) :
    ∀ m ∈ messages, m.length + 4 ≤ INT_MAX := by
  induction messages generalizing parts bytes with
  | nil => simp
  | cons m messages ih =>
    by_cases hfits : m.length + 4 ≤ INT_MAX
    · obtain ⟨left, hm⟩ := send_bytes_eq parts hfits
      rw [send_messages, hm] at hsend
      obtain ⟨rest, hrest, -⟩ : ∃ rest, send_messages left messages = some rest ∧ _ := by
        simpa [Option.bind_eq_some_iff] using hsend
      exact List.forall_mem_cons.mpr ⟨hfits, ih hrest⟩
    · rw [send_messages, send_bytes_none parts (by omega)] at hsend
      exact absurd hsend (by simp)

/-- A call whose first `recv` gets the whole length field returns the message in front of the stream. -/
theorem recv_bytes_whole (copy : program) (tmp : UInt32) {chunks : List Nat} {m rest : List UInt8}
    (hm : m ≠ []) (hfits : m.length + 4 ≤ INT_MAX) (hwhole : 4 ≤ chunk chunks 4) :
    recv_bytes copy tmp ⟨(htonl m.length ++ m) ++ rest, chunks⟩ =
      (⟨m.length, m.length, m⟩, ⟨rest, skip_chunks chunks.tail m.length⟩) := by
  have hchunk : chunk chunks 4 = 4 := Nat.le_antisymm (chunk_le chunks 4) hwhole
  have hfield := htonl_length m.length
  have hrecv : recv ⟨htonl m.length ++ (m ++ rest), chunks⟩ 4 =
      (htonl m.length, ⟨m ++ rest, chunks.tail⟩) := by
    rw [recv_append (by omega), hchunk, List.take_of_length_le (by omega),
      List.drop_of_length_le (by omega), List.nil_append]
  have hlength : recv_length ⟨htonl m.length ++ (m ++ rest), chunks⟩ tmp = htonl m.length := by
    rw [recv_length, hrecv, hfield, List.drop_of_length_le (Nat.le_of_eq (leBytes_length 4 _)), List.append_nil]
  have hdata : recv_data (m.length : Int) ⟨m ++ rest, chunks.tail⟩ =
      (⟨m.length, m.length, m⟩, ⟨rest, skip_chunks chunks.tail m.length⟩) := by
    rw [recv_data, if_neg (by omega), Int.toNat_natCast,
      recv_loop_eq (List.length_pos_of_ne_nil hm) (Nat.le_succ _), List.nil_append]
  rw [List.append_assoc]
  cases copy with
  | host => rw [recv_bytes, hlength, hrecv, ntohl_htonl (by omega), hdata]
  | guest =>
    rw [recv_bytes, hlength, hrecv, hfield, if_neg (by decide), ntohl_htonl (by omega), hdata]

theorem recv_loop_length (length : Int) (fuel : Nat) (sk : sock) (left : Nat) (buf : List UInt8) :
    (recv_loop length fuel sk left buf).1.length = length := by
  induction fuel generalizing sk left buf with
  | zero => rfl
  | succ fuel ih =>
    rw [recv_loop]
    split
    · rfl
    · split
      · exact ih ..
      · rfl

theorem recv_data_length (length : Int) (sk : sock) : (recv_data length sk).1.length = length := by
  rw [recv_data]
  split
  · rfl
  · exact recv_loop_length ..

/-- The length of a call is that of the field as the first `recv` leaves it. -/
theorem recv_bytes_length (copy : program) (tmp : UInt32) (chunks : List Nat) (n : Nat)
    (rest : List UInt8) :
    (recv_bytes copy tmp ⟨htonl n ++ rest, chunks⟩).1.length =
      ntohl ((htonl n).take (chunk chunks 4) ++ (leBytes 4 tmp.toNat).drop (chunk chunks 4)) := by
  have hle := chunk_le chunks 4
  have hpos := chunk_pos chunks (show 0 < 4 by decide)
  have hrecv : recv ⟨htonl n ++ rest, chunks⟩ 4 = _ := recv_append (Nat.le_of_eq (htonl_length n).symm)
  have hgot : ((htonl n).take (chunk chunks 4)).length = chunk chunks 4 := by
    rw [List.length_take, htonl_length, Nat.min_eq_left hle]
  have hlength : recv_length ⟨htonl n ++ rest, chunks⟩ tmp =
      (htonl n).take (chunk chunks 4) ++ (leBytes 4 tmp.toNat).drop (chunk chunks 4) := by
    rw [recv_length, hrecv, hgot]
  cases copy with
  | host => rw [recv_bytes, hlength, recv_data_length]
  | guest => rw [recv_bytes, hlength, hrecv, hgot, if_neg (by omega), recv_data_length]

theorem ntohl_inj {bs cs : List UInt8} (hbs : bs.length = 4) (hcs : cs.length = 4)
    (heq : ntohl bs = ntohl cs) : bs = cs := by
  have hvalue := congrArg BitVec.toNat (BitVec.toInt_inj.mp heq)
  have hb := leValue_lt bs.reverse
  have hc := leValue_lt cs.reverse
  rw [List.length_reverse, hbs] at hb
  rw [List.length_reverse, hcs] at hc
  rw [BitVec.toNat_ofNat, BitVec.toNat_ofNat, Nat.mod_eq_of_lt (by omega),
    Nat.mod_eq_of_lt (by omega)] at hvalue
  exact List.reverse_injective (leValue_inj (by simp [hbs, hcs]) hvalue)

/-- A length field that is cut cannot be right for each content of `tmp`. -/
theorem whole_of_lengths (copy : program) {chunks : List Nat} (n : Nat) (rest : List UInt8) (l : Int)
    (hlength : ∀ tmp, (recv_bytes copy tmp ⟨htonl n ++ rest, chunks⟩).1.length = l) :
    4 ≤ chunk chunks 4 := by
  by_contra hcut
  have hsame := (hlength 0).trans (hlength (2 ^ 24)).symm
  rw [recv_bytes_length, recv_bytes_length] at hsame
  have hlen : ∀ tmp : UInt32, ((htonl n).take (chunk chunks 4) ++
      (leBytes 4 tmp.toNat).drop (chunk chunks 4)).length = 4 := by
    intro tmp
    rw [List.length_append, List.length_take, List.length_drop, htonl_length, leBytes_length]
    omega
  have htail := List.append_cancel_left (ntohl_inj (hlen _) (hlen _) hsame)
  -- the last byte of the field is not received
  obtain hk | hk | hk | hk : chunk chunks 4 = 0 ∨ chunk chunks 4 = 1 ∨ chunk chunks 4 = 2 ∨
      chunk chunks 4 = 3 := by omega
  all_goals
    rw [hk] at htail
    exact absurd htail (by decide)

/-- The results for the messages: each with its length. -/
def results (messages : List (List UInt8)) : List received :=
  messages.map fun m => ⟨m.length, m.length, m⟩

theorem receive_iff_whole (copy : program) {messages : List (List UInt8)} (chunks : List Nat)
    (hne : ∀ m ∈ messages, m ≠ []) (hfits : ∀ m ∈ messages, m.length + 4 ≤ INT_MAX) :
    (∀ tmps : List UInt32, tmps.length = messages.length →
      receive copy tmps ⟨stream messages, chunks⟩ = results messages) ↔
    WholeLengths chunks messages := by
  induction messages generalizing chunks with
  | nil => simp [WholeLengths, receive, results]
  | cons m messages ih =>
    rw [List.forall_mem_cons] at hne hfits
    have hstream : stream (m :: messages) = (htonl m.length ++ m) ++ stream messages :=
      List.flatMap_cons
    have hresults : results (m :: messages) = ⟨m.length, m.length, m⟩ :: results messages := rfl
    have hrest := ih (skip_chunks chunks.tail m.length) hne.2 hfits.2
    rw [hstream, hresults, WholeLengths]
    constructor
    · intro hall
      have hwhole : 4 ≤ chunk chunks 4 := by
        apply whole_of_lengths copy m.length (m ++ stream messages) m.length
        intro tmp
        have hcalls := hall (tmp :: List.replicate messages.length 0) (by simp)
        rw [receive, List.cons.injEq, List.append_assoc] at hcalls
        rw [hcalls.1]
      refine ⟨hwhole, hrest.mp ?_⟩
      intro tmps htmps
      have hcalls := hall (0 :: tmps) (by simp [htmps])
      rw [receive, recv_bytes_whole copy 0 hne.1 hfits.1 hwhole, List.cons.injEq] at hcalls
      exact hcalls.2
    · rintro ⟨hwhole, hrests⟩ tmps htmps
      cases tmps with
      | nil => exact absurd htmps (by simp)
      | cons tmp tmps =>
        rw [receive, recv_bytes_whole copy tmp hne.1 hfits.1 hwhole,
          hrest.mpr hrests tmps (by simpa using htmps)]

/-- Framing: in both programs the calls of `recv_bytes` return the messages with their lengths, whatever
    the variables hold, exactly when the transport never cuts the length field of a message, and the
    length of each message with its field is an `int`. -/
theorem recv_bytes_returns_messages (copy : program) (parts chunks : List Nat)
    (messages : List (List UInt8)) (hne : ∀ m ∈ messages, m ≠ []) :
    (∃ bytes, send_messages parts messages = some bytes ∧
      ∀ tmps : List UInt32, tmps.length = messages.length →
        receive copy tmps ⟨bytes, chunks⟩ = results messages) ↔
    (∀ m ∈ messages, m.length + 4 ≤ INT_MAX) ∧ WholeLengths chunks messages := by
  constructor
  · rintro ⟨bytes, hsend, hreceive⟩
    have hfits := fits_of_send_messages hsend
    rw [send_messages_eq parts hfits, Option.some.injEq] at hsend
    subst hsend
    exact ⟨hfits, (receive_iff_whole copy chunks hne hfits).mp hreceive⟩
  · rintro ⟨hfits, hwhole⟩
    exact ⟨stream messages, send_messages_eq parts hfits,
      (receive_iff_whole copy chunks hne hfits).mpr hwhole⟩

theorem two_messages_received :
    ∃ bytes, send_messages [2] [[1], [2, 3]] = some bytes ∧
      ∀ tmps : List UInt32, tmps.length = 2 →
        receive .guest tmps ⟨bytes, [3, 0, 3, 0]⟩ = [⟨1, 1, [1]⟩, ⟨2, 2, [2, 3]⟩] :=
  (recv_bytes_returns_messages .guest [2] [3, 0, 3, 0] [[1], [2, 3]] (by decide)).mpr
    ⟨by decide, by decide⟩

/-- The first `recv` gets two bytes of the field: the length is read as zero, and the call ends
    without the message. -/
theorem cut_length_loses_message :
    send_messages [] [[7]] = some [0, 0, 0, 1, 7] ∧
    receive .host [0] ⟨[0, 0, 0, 1, 7], [1]⟩ = [⟨0, 0, []⟩] ∧
    receive .guest [0] ⟨[0, 0, 0, 1, 7], [1]⟩ = [⟨0, 0, []⟩] := by
  decide

end messages
end vpb
