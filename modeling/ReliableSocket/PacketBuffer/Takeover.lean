import ReliableSocket.PacketBuffer.Pipeline

open memory ringbuf run

namespace packet_buffer.takeover

/-- What stands in the TCP ring: packets, and the entries of `append_no_op`. -/
inductive record where
  | packet (p : tcp_packet)
  | no_op

namespace record

def bytes : record → List UInt8
  | .packet p => p.bytes
  | .no_op => packet_buffer.no_op.bytes

def to_packet : record → Option tcp_packet
  | .packet p => some p
  | .no_op => none

def is_packet (r : record) : Bool := r.to_packet.isSome

end record

/-- The packet buffer with the packets that it has returned. Next to it, what its rings hold, the
    packets that were written, and of these the ones that were written before the latest
    `append_no_op`; no call reads them. -/
structure Server where
  base : State
  tcps : List record
  out : List frame
  tcp_written : List tcp_packet
  other_written : List (List UInt8)
  tcp_owed : List tcp_packet
  other_owed : List (List UInt8)

inductive Action where
  | call (a : packet_buffer.Action)
  | append_no_op

/-- The rings after a dump. -/
def dump_rings (check_block : UInt32 → con_id_type → Bool) (tcps : List record) (out : List frame) :
    List record × List frame :=
  match tcps with
  | [] => ([], out)
  | .no_op :: tcps => (.no_op :: tcps, out ++ [.tcp_done])
  | .packet p :: tcps =>
    if check_block p.ack p.con_id then (.packet p :: tcps, out) else (tcps, out ++ [.tcp p])

def step (s : Server) : Action → Server
  | .call (.write_to_tcp_buffer p) =>
    { s with
      base := packet_buffer.step s.base (.write_to_tcp_buffer p)
      tcps := s.tcps ++ [.packet p]
      tcp_written := s.tcp_written ++ [p] }
  | .call (.write_to_packet_buffer data) =>
    { s with
      base := packet_buffer.step s.base (.write_to_packet_buffer data)
      out := s.out ++ [.other data]
      other_written := s.other_written ++ [data] }
  | .call (.dump_tcp_buffer check_block) =>
    { s with
      base := packet_buffer.step s.base (.dump_tcp_buffer check_block)
      tcps := (dump_rings check_block s.tcps s.out).1
      out := (dump_rings check_block s.tcps s.out).2 }
  | .call .packet_buffer_to_buffer =>
    { s with
      base := packet_buffer.step s.base .packet_buffer_to_buffer
      out := if to_int (ringbuf_bytes_used s.base.pb.outgoing_buffer) ≤ 0 then s.out else s.out.tail }
  | .append_no_op =>
    { s with
      base := { s.base with pb := packet_buffer.append_no_op s.base.pb }
      tcps := s.tcps ++ [.no_op]
      out := s.out ++ [.udp_done]
      tcp_owed := s.tcp_written
      other_owed := s.other_written }

def start (outgoing tcp : Mem) : Server := ⟨packet_buffer.start outgoing tcp, [], [], [], [], [], []⟩

/-- Reading these frames with these flags, the two flags of a drain are both seen at a place where a
    packet is still to come. -/
def drained_before_packet : Bool → Bool → List frame → Bool
  | _, _, [] => false
  | udp_done, _, .tcp_done :: out =>
    if udp_done then out.any (·.packet.isSome) else drained_before_packet udp_done true out
  | _, tcp_done, .udp_done :: out =>
    if tcp_done then out.any (·.packet.isSome) else drained_before_packet true tcp_done out
  | udp_done, tcp_done, _ :: out => drained_before_packet udp_done tcp_done out

/-- The packets behind the first no-op entry of the TCP ring. -/
def behind_no_op (tcps : List record) : List tcp_packet :=
  (tcps.dropWhile record.is_packet).filterMap record.to_packet

/-- Calls fit, and no packet looks like the no-op entry. `append_no_op` is called only when no packet
    stands behind an earlier no-op entry in the TCP ring, and the outgoing ring does not complete a
    drain before its last packet. -/
def Ok (s : Server) : Action → Prop
  | .call a => Fits s.base a ∧ ∀ p, a = .write_to_tcp_buffer p → is_no_op p.con_id = false
  | .append_no_op =>
    16 ≤ ringbuf_bytes_free s.base.pb.tcp_buffer ∧ 8 ≤ ringbuf_bytes_free s.base.pb.outgoing_buffer ∧
      behind_no_op s.tcps = [] ∧
      drained_before_packet s.base.pb.udp_done s.base.pb.tcp_done s.out = false

/-- Every packet that was written before the latest `append_no_op` has been returned. -/
def Drained (s : Server) : Prop :=
  ∃ frames : List frame, frames.map frame.packet = s.base.returned.map some ∧
    s.tcp_owed <+: frames.filterMap frame.to_tcp ∧ s.other_owed <+: frames.filterMap frame.to_other

/-- A call of `packet_buffer_to_buffer` that returns -99 does so when all is drained. -/
def Barrier (s : Server) : Action → Prop
  | .call .packet_buffer_to_buffer => (packet_buffer_to_buffer s.base.pb).1 = -99 → Drained s
  | _ => True

/-- The no-op entry has not been seen by a dump. Packets that are owed stand before it. -/
structure Waiting (s : Server) (returned : List frame) : Prop where
  tcp_done : s.base.pb.tcp_done = false
  no_flag : .tcp_done ∉ s.out
  owed : s.tcp_owed <+: (returned ++ s.out).filterMap frame.to_tcp ++
    (s.tcps.takeWhile record.is_packet).filterMap record.to_packet

/-- The no-op entry stays at the front of the TCP ring. Packets that are owed are in the part `out₁` of
    the outgoing ring, which does not complete a drain before its last packet. -/
structure Closing (s : Server) (returned out₁ out₂ : List frame) : Prop where
  out : s.out = out₁ ++ out₂
  front : s.tcps.head? = some .no_op
  tcp_owed : s.tcp_owed <+: (returned ++ out₁).filterMap frame.to_tcp
  other_owed : s.other_owed <+: (returned ++ out₁).filterMap frame.to_other
  not_early : drained_before_packet s.base.pb.udp_done s.base.pb.tcp_done out₁ = false

structure Inv (s : Server) (returned : List frame) : Prop where
  holds : Holds s.base.pb (s.tcps.map record.bytes).flatten s.out
  tcp_len : ∀ p, .packet p ∈ s.tcps → PacketLen p.data ∧ is_no_op p.con_id = false
  packets : returned.map frame.packet = s.base.returned.map some
  tcp_order : s.tcp_written = (returned ++ s.out).filterMap frame.to_tcp ++ s.tcps.filterMap record.to_packet
  other_order : s.other_written = (returned ++ s.out).filterMap frame.to_other
  other_owed : s.other_owed <+: s.other_written
  phase : Waiting s returned ∨ ∃ out₁ out₂, Closing s returned out₁ out₂

section early

variable {out : List frame}

theorem not_early_of_no_packet (udp_done tcp_done : Bool) (hnone : ∀ f ∈ out, f.packet = none) :
    drained_before_packet udp_done tcp_done out = false := by
  induction out generalizing udp_done tcp_done with
  | nil => rfl
  | cons f out ih =>
    have hrest : ∀ udp_done tcp_done, drained_before_packet udp_done tcp_done out = false :=
      fun _ _ => ih _ _ fun g hg => hnone g (by simp [hg])
    have hany : out.any (·.packet.isSome) = false := by
      rw [List.any_eq_false]
      intro g hg
      simp [hnone g (by simp [hg])]
    cases f <;> simp [drained_before_packet, hrest, hany]

/-- Without a flag of the TCP ring no drain is completed. -/
theorem not_early_of_no_flag (udp_done : Bool) (hflag : .tcp_done ∉ out) :
    drained_before_packet udp_done false out = false := by
  induction out generalizing udp_done with
  | nil => rfl
  | cons f out ih =>
    simp only [List.mem_cons, not_or] at hflag
    have hrest : ∀ udp_done, drained_before_packet udp_done false out = false := fun _ => ih _ hflag.2
    cases f with
    | tcp p => exact hrest udp_done
    | other data => exact hrest udp_done
    | tcp_done => exact absurd rfl hflag.1
    | udp_done => exact hrest true

/-- A flag at the end completes no drain before a packet. -/
theorem not_early_concat {udp_done tcp_done : Bool} {f : frame} (hf : f.packet = none)
    (hearly : drained_before_packet udp_done tcp_done out = false) :
    drained_before_packet udp_done tcp_done (out ++ [f]) = false := by
  induction out generalizing udp_done tcp_done with
  | nil => exact not_early_of_no_packet _ _ (by simpa using hf)
  | cons g out ih =>
    cases g with
    | tcp p => exact ih hearly
    | other data => exact ih hearly
    | tcp_done =>
      simp only [drained_before_packet, List.cons_append] at hearly ⊢
      split at hearly
      · simp_all
      · simp_all
    | udp_done =>
      simp only [drained_before_packet, List.cons_append] at hearly ⊢
      split at hearly
      · simp_all
      · simp_all

/-- After a flag is read no drain is completed early. If the flag completes one, no packet is left. -/
theorem not_early_flag {pb : packet_buffer_t} {f : frame} (hflag : f = .tcp_done ∨ f = .udp_done)
    (hearly : drained_before_packet pb.udp_done pb.tcp_done (f :: out) = false) :
    drained_before_packet (read_result pb f).2.2.1 (read_result pb f).2.2.2 out = false ∧
      ((read_result pb f).1 = -99 → ∀ g ∈ out, g.packet = none) := by
  have hcomplete : out.any (·.packet.isSome) = false → ∀ g ∈ out, g.packet = none := by
    intro hany g hg
    rw [List.any_eq_false] at hany
    simpa using hany g hg
  obtain rfl | rfl := hflag
  · cases hudp : pb.udp_done with
    | true =>
      rw [drained_before_packet, hudp, if_pos rfl] at hearly
      simp only [read_result, hudp, if_true]
      exact ⟨not_early_of_no_packet _ _ (hcomplete hearly), fun _ => hcomplete hearly⟩
    | false =>
      rw [drained_before_packet, hudp, if_neg (by simp)] at hearly
      simp only [read_result, hudp, Bool.false_eq_true, if_false]
      exact ⟨hearly, by simp⟩
  · cases htcp : pb.tcp_done with
    | true =>
      rw [drained_before_packet, htcp, if_pos rfl] at hearly
      simp only [read_result, htcp, if_true]
      exact ⟨not_early_of_no_packet _ _ (hcomplete hearly), fun _ => hcomplete hearly⟩
    | false =>
      rw [drained_before_packet, htcp, if_neg (by simp)] at hearly
      simp only [read_result, htcp, Bool.false_eq_true, if_false]
      exact ⟨hearly, by simp⟩

end early

section steps

variable {s : Server} {returned : List frame}

theorem inv_start (outgoing tcp : Mem) : Inv (start outgoing tcp) [] where
  holds := (represents_init outgoing tcp).holds
  tcp_len := by simp [start]
  packets := rfl
  tcp_order := rfl
  other_order := rfl
  other_owed := List.nil_prefix
  phase := .inl ⟨rfl, by simp [start], List.nil_prefix⟩

theorem Inv.write_tcp (hs : Inv s returned) {p : tcp_packet}
    (hok : Ok s (.call (.write_to_tcp_buffer p))) :
    Inv (step s (.call (.write_to_tcp_buffer p))) returned where
  holds := by
    obtain ⟨hholds, -⟩ := hs.holds.write_to_tcp_buffer hok.1.2
    simpa [step, packet_buffer.step, record.bytes] using hholds
  tcp_len q hq := by
    rcases List.mem_append.mp hq with hq | hq
    · exact hs.tcp_len q hq
    · obtain rfl : q = p := by simpa using hq
      exact ⟨hok.1.1, hok.2 q rfl⟩
  packets := hs.packets
  tcp_order := by simp [step, hs.tcp_order, record.to_packet]
  other_order := hs.other_order
  other_owed := hs.other_owed
  phase := by
    obtain hwait | ⟨out₁, out₂, hclose⟩ := hs.phase
    · refine .inl ⟨hwait.tcp_done, hwait.no_flag, hwait.owed.trans ?_⟩
      -- Behind a no-op entry the new packet makes no difference, otherwise it comes last.
      apply List.prefix_append_right_inj _ |>.mpr
      apply List.IsPrefix.filterMap
      simp only [step, List.takeWhile_append]
      split
      · exact (List.takeWhile_prefix _).trans (List.prefix_append _ _)
      · exact List.prefix_refl _
    · refine .inr ⟨out₁, out₂, hclose.out, ?_, hclose.tcp_owed, hclose.other_owed, hclose.not_early⟩
      simp [step, hclose.front]

theorem Inv.write_other (hs : Inv s returned) {data : List UInt8}
    (hok : Ok s (.call (.write_to_packet_buffer data))) :
    Inv (step s (.call (.write_to_packet_buffer data))) returned where
  holds := hs.holds.write_to_packet_buffer hok.1.1 hok.1.2
  tcp_len := hs.tcp_len
  packets := hs.packets
  tcp_order := by simp [step, hs.tcp_order, frame.to_tcp]
  other_order := by simp [step, hs.other_order, frame.to_other]
  other_owed := hs.other_owed.trans (List.prefix_append _ _)
  phase := by
    obtain hwait | ⟨out₁, out₂, hclose⟩ := hs.phase
    · refine .inl ⟨hwait.tcp_done, ?_, ?_⟩
      · simpa [step] using hwait.no_flag
      · simpa [step, frame.to_tcp, List.filterMap_cons] using hwait.owed
    · refine .inr ⟨out₁, out₂ ++ [.other data], ?_, hclose.front, hclose.tcp_owed, hclose.other_owed,
        hclose.not_early⟩
      simp [step, hclose.out]

/-- The record at the front of the TCP ring, as a dump finds it. -/
theorem Inv.dump_cases (hs : Inv s returned) {check_block : UInt32 → con_id_type → Bool}
    (hok : Ok s (.call (.dump_tcp_buffer check_block))) :
    Holds (dump_tcp_buffer s.base.pb check_block).2
        ((dump_rings check_block s.tcps s.out).1.map record.bytes).flatten
        (dump_rings check_block s.tcps s.out).2 ∧
      (dump_tcp_buffer s.base.pb check_block).2.udp_done = s.base.pb.udp_done ∧
      (dump_tcp_buffer s.base.pb check_block).2.tcp_done = s.base.pb.tcp_done := by
  obtain ⟨⟨hroom, hheader⟩, -⟩ := hok
  have hholds := hs.holds
  cases htcps : s.tcps with
  | nil =>
    rw [htcps] at hholds
    have hempty : ringbuf_bytes_used s.base.pb.tcp_buffer = 0 := by
      rw [← contents_length, hholds.tcp_contents]
      rfl
    simp only [dump_tcp_buffer, hempty, if_true, dump_rings, and_true]
    exact hholds
  | cons r tcps =>
    rw [htcps] at hholds
    cases r with
    | no_op =>
      have hrings : Holds s.base.pb (no_op.bytes ++ (tcps.map record.bytes).flatten) s.out := hholds
      have hused : ringbuf_bytes_used s.base.pb.tcp_buffer ≠ 0 := by
        rw [← contents_length, hrings.tcp_contents]
        simp
      have hfront : s.base.pb.tcp_buffer.tail + 16 ≤ s.base.pb.tcp_buffer.size :=
        Nat.le_trans (by omega) (hheader hused)
      have hcon := (hrings.oldest_con hfront).1
      have hno_op : is_no_op no_op = true := rfl
      rw [dump_bytes, if_neg hused, hcon, if_pos hno_op] at hroom
      obtain ⟨outgoing, hdump, hafter⟩ := hrings.dump_no_op hfront hno_op hroom check_block
      rw [hdump]
      exact ⟨hafter, rfl, rfl⟩
    | packet p =>
      obtain ⟨hlen, hno_op⟩ := hs.tcp_len p (by simp [htcps])
      have hrings : Holds s.base.pb (p.bytes ++ (tcps.map record.bytes).flatten) s.out := hholds
      have hused : ringbuf_bytes_used s.base.pb.tcp_buffer ≠ 0 := by
        rw [← contents_length, hrings.tcp_contents]
        simp [tcp_packet.bytes]
      obtain ⟨hcon, hack, hdata⟩ := hrings.oldest hlen (hheader hused)
      rw [dump_bytes, if_neg hused, hcon, hack, hdata, if_neg (by simp [hno_op])] at hroom
      cases hanswer : check_block p.ack p.con_id with
      | true =>
        have hsame : (dump_tcp_buffer s.base.pb check_block).2 = s.base.pb := by
          simp [dump_tcp_buffer, hused, hcon, hack, hno_op, hanswer]
        rw [hsame]
        simp only [dump_rings, hanswer, if_true, and_true]
        exact hholds
      | false =>
        rw [if_neg (by simp [hanswer])] at hroom
        obtain ⟨tcp_buffer, outgoing_buffer, hdump, hafter⟩ :=
          hrings.move hlen (hheader hused) hno_op hanswer hroom
        rw [hdump]
        simp only [dump_rings, hanswer, Bool.false_eq_true, if_false, and_true]
        exact hafter

/-- A call that moves packets between the rings and returns none. -/
theorem Inv.move_rings (hs : Inv s returned) {base : State} {tcps : List record} {out : List frame}
    (hreturned : base.returned = s.base.returned)
    (hholds : Holds base.pb (tcps.map record.bytes).flatten out)
    (htcps : ∀ p, .packet p ∈ tcps → .packet p ∈ s.tcps)
    (htcp : out.filterMap frame.to_tcp ++ tcps.filterMap record.to_packet =
      s.out.filterMap frame.to_tcp ++ s.tcps.filterMap record.to_packet)
    (hother : out.filterMap frame.to_other = s.out.filterMap frame.to_other)
    (hphase : Waiting { s with base := base, tcps := tcps, out := out } returned ∨
      ∃ out₁ out₂, Closing { s with base := base, tcps := tcps, out := out } returned out₁ out₂) :
    Inv { s with base := base, tcps := tcps, out := out } returned where
  holds := hholds
  tcp_len p hp := hs.tcp_len p (htcps p hp)
  packets := by rw [hreturned, hs.packets]
  tcp_order := by
    simp only [hs.tcp_order, List.filterMap_append, List.append_assoc, htcp]
  other_order := by
    simp only [hs.other_order, List.filterMap_append, hother]
  other_owed := hs.other_owed
  phase := hphase

/-- The first dump that finds the no-op entry: all that is owed is in the outgoing ring by now. -/
theorem Inv.closing_of_waiting (hs : Inv s returned) (hwait : Waiting s returned)
    (hfront : s.tcps.head? = some .no_op) : Closing s returned s.out [] where
  out := by simp
  front := hfront
  tcp_owed := by
    obtain ⟨tcps, htcps⟩ := List.head?_eq_some_iff.mp hfront
    have howed := hwait.owed
    simpa [htcps, List.takeWhile_cons, record.is_packet, record.to_packet] using howed
  other_owed := hs.other_order ▸ hs.other_owed
  not_early := by
    rw [hwait.tcp_done]
    exact not_early_of_no_flag _ hwait.no_flag

theorem Inv.dump (hs : Inv s returned) {check_block : UInt32 → con_id_type → Bool}
    (hok : Ok s (.call (.dump_tcp_buffer check_block))) :
    Inv (step s (.call (.dump_tcp_buffer check_block))) returned := by
  obtain ⟨hholds, hudp, htcp⟩ := hs.dump_cases hok
  -- A dump that moves nothing.
  have hsame : dump_rings check_block s.tcps s.out = (s.tcps, s.out) →
      Inv (step s (.call (.dump_tcp_buffer check_block))) returned := by
    intro hrings
    rw [hrings] at hholds
    have hstep : step s (.call (.dump_tcp_buffer check_block)) =
        { s with
          base := packet_buffer.step s.base (.dump_tcp_buffer check_block), tcps := s.tcps, out := s.out } := by
      simp [step, hrings]
    rw [hstep]
    refine hs.move_rings rfl hholds (fun _ hp => hp) rfl rfl ?_
    obtain hwait | ⟨out₁, out₂, hclose⟩ := hs.phase
    · exact .inl ⟨htcp.trans hwait.tcp_done, hwait.no_flag, hwait.owed⟩
    · refine .inr ⟨out₁, out₂, hclose.out, hclose.front, hclose.tcp_owed, hclose.other_owed, ?_⟩
      have hearly := hclose.not_early
      rwa [← hudp, ← htcp] at hearly
  cases htcps : s.tcps with
  | nil => exact hsame (by rw [htcps]; rfl)
  | cons r tcps =>
    cases r with
    | no_op =>
      have hfront : s.tcps.head? = some .no_op := by rw [htcps]; rfl
      have hrings : dump_rings check_block s.tcps s.out = (s.tcps, s.out ++ [.tcp_done]) := by
        rw [htcps]
        rfl
      rw [hrings] at hholds
      have hstep : step s (.call (.dump_tcp_buffer check_block)) =
          { s with
            base := packet_buffer.step s.base (.dump_tcp_buffer check_block), tcps := s.tcps
            out := s.out ++ [.tcp_done] } := by
        simp [step, hrings]
      rw [hstep]
      obtain ⟨out₁, out₂, hclose⟩ : ∃ out₁ out₂, Closing s returned out₁ out₂ := by
        obtain hwait | hclose := hs.phase
        · exact ⟨_, _, hs.closing_of_waiting hwait hfront⟩
        · exact hclose
      refine hs.move_rings rfl hholds (fun _ hp => hp) ?_ ?_ (.inr ⟨out₁, out₂ ++ [.tcp_done], ?_⟩)
      · simp [frame.to_tcp, List.filterMap_cons]
      · simp [frame.to_other, List.filterMap_cons]
      · refine ⟨?_, hfront, hclose.tcp_owed, hclose.other_owed, ?_⟩
        · simp [hclose.out]
        · have hearly := hclose.not_early
          rwa [← hudp, ← htcp] at hearly
    | packet p =>
      cases hanswer : check_block p.ack p.con_id with
      | true => exact hsame (by simp [htcps, dump_rings, hanswer])
      | false =>
        have hrings : dump_rings check_block s.tcps s.out = (tcps, s.out ++ [.tcp p]) := by
          simp [htcps, dump_rings, hanswer]
        rw [hrings] at hholds
        have hstep : step s (.call (.dump_tcp_buffer check_block)) =
            { s with
              base := packet_buffer.step s.base (.dump_tcp_buffer check_block), tcps := tcps
              out := s.out ++ [.tcp p] } := by
          simp [step, hrings]
        rw [hstep]
        obtain hwait | ⟨out₁, out₂, hclose⟩ := hs.phase
        · refine hs.move_rings rfl hholds (fun _ hp => by simp [htcps, hp]) ?_ ?_
            (.inl ⟨htcp.trans hwait.tcp_done, ?_, ?_⟩)
          · simp [htcps, frame.to_tcp, record.to_packet]
          · simp [frame.to_other, List.filterMap_cons]
          · simpa using hwait.no_flag
          · have howed := hwait.owed
            simpa [htcps, List.takeWhile_cons, record.is_packet, record.to_packet, frame.to_tcp,
              List.filterMap_cons] using howed
        · have hfront := hclose.front
          simp [htcps] at hfront

/-- A read that finds nothing, or only too much to be counted by an `int`. -/
theorem Inv.read_nothing (hs : Inv s returned)
    (hnone : to_int (ringbuf_bytes_used s.base.pb.outgoing_buffer) ≤ 0) :
    Inv (step s (.call .packet_buffer_to_buffer)) returned := by
  have hstep : step s (.call .packet_buffer_to_buffer) = s := by
    simp [step, packet_buffer.step, packet_buffer_to_buffer, hnone]
  rwa [hstep]

/-- A read that finds a frame: the frame, the call, and the server after it. -/
theorem Inv.read_cases (hs : Inv s returned)
    (hpos : ¬to_int (ringbuf_bytes_used s.base.pb.outgoing_buffer) ≤ 0) :
    ∃ f out pb, s.out = f :: out ∧
      packet_buffer_to_buffer s.base.pb =
        ((read_result s.base.pb f).1, (read_result s.base.pb f).2.1, pb) ∧
      pb.udp_done = (read_result s.base.pb f).2.2.1 ∧ pb.tcp_done = (read_result s.base.pb f).2.2.2 ∧
      Holds pb (s.tcps.map record.bytes).flatten out := by
  have hholds := hs.holds
  cases hout : s.out with
  | nil =>
    have hempty : ringbuf_bytes_used s.base.pb.outgoing_buffer = 0 := by
      rw [← contents_length, hholds.out_contents, hout]
      rfl
    rw [hempty] at hpos
    exact absurd (by decide) hpos
  | cons f out =>
    rw [hout] at hholds
    obtain ⟨outgoing, hread, hafter⟩ := hholds.read_frame hpos
    exact ⟨f, out, _, rfl, hread, rfl, rfl, hafter _ _⟩

theorem Inv.read_packet (hs : Inv s returned) {f : frame} {out : List frame} {pb : packet_buffer_t}
    {data : List UInt8} (hout : s.out = f :: out) (hdata : f.packet = some data)
    (hudp : pb.udp_done = s.base.pb.udp_done) (htcp : pb.tcp_done = s.base.pb.tcp_done)
    (hholds : Holds pb (s.tcps.map record.bytes).flatten out) :
    Inv { s with base := ⟨pb, s.base.returned ++ [data]⟩, out := out } (returned ++ [f]) where
  holds := hholds
  tcp_len := hs.tcp_len
  packets := by simp [hs.packets, hdata]
  tcp_order := by simp [hs.tcp_order, hout]
  other_order := by simp [hs.other_order, hout]
  other_owed := hs.other_owed
  phase := by
    obtain hwait | ⟨out₁, out₂, hclose⟩ := hs.phase
    · refine .inl ⟨htcp.trans hwait.tcp_done, ?_, ?_⟩
      · have hflag := hwait.no_flag
        rw [hout] at hflag
        exact fun hmem => hflag (by simp [hmem])
      · simpa [hout] using hwait.owed
    · have hearly := hclose.not_early
      rw [← hudp, ← htcp] at hearly
      cases out₁ with
      | nil =>
        have hout₂ : out = [] ++ out := rfl
        refine .inr ⟨[], out, hout₂, hclose.front, ?_, ?_, rfl⟩
        · exact hclose.tcp_owed.trans (by simp)
        · exact hclose.other_owed.trans (by simp)
      | cons g out₁ =>
        obtain ⟨rfl, rfl⟩ : f = g ∧ out = out₁ ++ out₂ := by
          have heq := hclose.out
          rw [hout] at heq
          simpa using heq
        refine .inr ⟨out₁, out₂, rfl, hclose.front, ?_, ?_, ?_⟩
        · simpa using hclose.tcp_owed
        · simpa using hclose.other_owed
        · cases f <;> simp_all [frame.packet, drained_before_packet]

theorem Inv.read_flag (hs : Inv s returned) {f : frame} {out : List frame} {pb : packet_buffer_t}
    (hout : s.out = f :: out) (hflag : f = .tcp_done ∨ f = .udp_done)
    (hudp : pb.udp_done = (read_result s.base.pb f).2.2.1)
    (htcp : pb.tcp_done = (read_result s.base.pb f).2.2.2)
    (hholds : Holds pb (s.tcps.map record.bytes).flatten out) :
    Inv { s with base := ⟨pb, s.base.returned⟩, out := out } returned := by
  have hnone : f.packet = none ∧ f.to_tcp = none ∧ f.to_other = none := by
    obtain rfl | rfl := hflag <;> exact ⟨rfl, rfl, rfl⟩
  refine hs.move_rings rfl hholds (fun _ hp => hp) (by simp [hout, hnone]) (by simp [hout, hnone]) ?_
  obtain hwait | ⟨out₁, out₂, hclose⟩ := hs.phase
  · have hno_flag := hwait.no_flag
    rw [hout] at hno_flag
    obtain rfl | rfl := hflag
    · exact absurd (by simp) hno_flag
    · refine .inl ⟨?_, fun hmem => hno_flag (by simp [hmem]), ?_⟩
      · simpa [read_result, hwait.tcp_done] using htcp
      · simpa [hout, hnone] using hwait.owed
  · have hearly := hclose.not_early
    cases out₁ with
    | nil =>
      exact .inr ⟨[], out, rfl, hclose.front, hclose.tcp_owed, hclose.other_owed, rfl⟩
    | cons g out₁ =>
      obtain ⟨rfl, rfl⟩ : f = g ∧ out = out₁ ++ out₂ := by
        have heq := hclose.out
        rw [hout] at heq
        simpa using heq
      refine .inr ⟨out₁, out₂, rfl, hclose.front, ?_, ?_, ?_⟩
      · simpa [hnone] using hclose.tcp_owed
      · simpa [hnone] using hclose.other_owed
      · rw [hudp, htcp]
        exact (not_early_flag hflag hearly).1

theorem Inv.read (hs : Inv s returned) :
    ∃ returned', Inv (step s (.call .packet_buffer_to_buffer)) returned' := by
  by_cases hpos : to_int (ringbuf_bytes_used s.base.pb.outgoing_buffer) ≤ 0
  · exact ⟨returned, hs.read_nothing hpos⟩
  obtain ⟨f, out, pb, hout, hread, hudp, htcp, hholds⟩ := hs.read_cases hpos
  have hstep : step s (.call .packet_buffer_to_buffer) =
      { s with
        base := ⟨pb, if (read_result s.base.pb f).1 > 0 then
          s.base.returned ++ [(read_result s.base.pb f).2.1] else s.base.returned⟩
        out := out } := by
    simp only [step, packet_buffer.step, hread, hpos, if_false, hout, List.tail_cons]
  rw [hstep]
  have hlen := fun data => hs.holds.out_len f (by simp [hout]) data
  cases f with
  | tcp p =>
    have hpositive := (hlen p.data rfl).1
    rw [if_pos (by simp only [read_result]; omega)]
    exact ⟨_, hs.read_packet hout rfl hudp htcp hholds⟩
  | other data =>
    have hpositive := (hlen data rfl).1
    rw [if_pos (by simp only [read_result]; omega)]
    exact ⟨_, hs.read_packet hout rfl hudp htcp hholds⟩
  | tcp_done =>
    rw [if_neg (by simp only [read_result]; split <;> simp)]
    exact ⟨_, hs.read_flag hout (.inl rfl) hudp htcp hholds⟩
  | udp_done =>
    rw [if_neg (by simp only [read_result]; split <;> simp)]
    exact ⟨_, hs.read_flag hout (.inr rfl) hudp htcp hholds⟩

/-- The no-op entries of a new leader. -/
theorem Inv.append (hs : Inv s returned) (hok : Ok s .append_no_op) :
    Inv (step s .append_no_op) returned := by
  obtain ⟨htcp_room, hout_room, hbehind, hearly⟩ := hok
  obtain ⟨hvalid₁, hcontents₁, -⟩ := memcpy_into_spec no_op.bytes hs.holds.tcp_valid (by simpa using htcp_room)
  obtain ⟨hvalid₂, hcontents₂, -⟩ := memcpy_into_spec (leBytes 8 UDP_DONE_FLAG) hs.holds.out_valid
    (by simpa using hout_room)
  have hput := (hs.holds.put (f := .udp_done) hvalid₂ (by rw [hcontents₂]; rfl) (by simp [frame.packet])).put_tcp
    hvalid₁ hcontents₁
  -- All packets of the TCP ring stand before its first no-op entry.
  have hfront : s.tcps.filterMap record.to_packet =
      (s.tcps.takeWhile record.is_packet).filterMap record.to_packet := by
    conv_lhs => rw [← List.takeWhile_append_dropWhile (p := record.is_packet) (l := s.tcps),
      List.filterMap_append]
    rw [behind_no_op] at hbehind
    rw [hbehind, List.append_nil]
  refine ⟨?_, ?_, hs.packets, ?_, ?_, List.prefix_refl _, ?_⟩
  · simpa [step, append_no_op, record.bytes] using hput
  · intro p hp
    exact hs.tcp_len p (by simpa [step] using hp)
  · simp [step, hs.tcp_order, frame.to_tcp, record.to_packet, List.filterMap_cons]
  · simp [step, hs.other_order, frame.to_other, List.filterMap_cons]
  obtain hwait | ⟨out₁, out₂, hclose⟩ := hs.phase
  · refine .inl ⟨hwait.tcp_done, by simpa [step] using hwait.no_flag, ?_⟩
    have htake : (s.tcps ++ [record.no_op]).takeWhile record.is_packet = s.tcps.takeWhile record.is_packet := by
      rw [List.takeWhile_append]
      split
      · rename_i hall
        have heq := (List.takeWhile_prefix record.is_packet).eq_of_length hall
        simp [heq, record.is_packet, record.to_packet]
      · rfl
    simp [step, htake, hs.tcp_order, hfront, frame.to_tcp, List.filterMap_cons]
  · refine .inr ⟨s.out ++ [.udp_done], [], by simp [step], ?_, ?_, ?_, ?_⟩
    · simp [step, hclose.front]
    · obtain ⟨tcps, htcps⟩ := List.head?_eq_some_iff.mp hclose.front
      have hnone : s.tcps.filterMap record.to_packet = [] := by
        rw [hfront, htcps]
        simp [record.is_packet, record.to_packet]
      simp [step, hs.tcp_order, hnone, frame.to_tcp, List.filterMap_cons]
    · simp [step, hs.other_order, frame.to_other, List.filterMap_cons]
    · exact not_early_concat rfl hearly

theorem Inv.step (hs : Inv s returned) {a : Action} (hok : Ok s a) :
    ∃ returned', Inv (takeover.step s a) returned' := by
  cases a with
  | append_no_op => exact ⟨returned, hs.append hok⟩
  | call a =>
    cases a with
    | write_to_tcp_buffer p => exact ⟨returned, hs.write_tcp hok⟩
    | write_to_packet_buffer data => exact ⟨returned, hs.write_other hok⟩
    | dump_tcp_buffer check_block => exact ⟨returned, hs.dump hok⟩
    | packet_buffer_to_buffer => exact hs.read

/-- The result -99: a flag completes the drain, and nothing that is owed is left in the rings. -/
theorem Inv.barrier (hs : Inv s returned) (a : Action) : Barrier s a := by
  unfold Barrier
  split
  · intro hresult
    have hpos : ¬to_int (ringbuf_bytes_used s.base.pb.outgoing_buffer) ≤ 0 := by
      intro hnone
      simp [packet_buffer_to_buffer, hnone] at hresult
    obtain ⟨f, out, pb, hout, hread, -, -, -⟩ := hs.read_cases hpos
    rw [hread] at hresult
    have hlen := fun data => hs.holds.out_len f (by simp [hout]) data
    have hflag : f = .tcp_done ∨ f = .udp_done := by
      cases f with
      | tcp p => simp [read_result] at hresult
      | other data => simp [read_result] at hresult
      | tcp_done => exact .inl rfl
      | udp_done => exact .inr rfl
    obtain hwait | ⟨out₁, out₂, hclose⟩ := hs.phase
    · -- Before the no-op entry is seen only one kind of flag is there.
      obtain rfl | rfl := hflag
      · exact absurd (by simp [hout]) hwait.no_flag
      · simp [read_result, hwait.tcp_done] at hresult
    · have hnone : ∀ g ∈ out₁, g.packet = none := by
        cases out₁ with
        | nil => simp
        | cons g out₁ =>
          obtain ⟨rfl, rfl⟩ : f = g ∧ out = out₁ ++ out₂ := by
            have heq := hclose.out
            rw [hout] at heq
            simpa using heq
          have hrest := (not_early_flag hflag hclose.not_early).2 hresult
          have hself : f.packet = none := by
            obtain rfl | rfl := hflag <;> rfl
          simpa [hself] using hrest
      have hmaps : out₁.filterMap frame.to_tcp = [] ∧ out₁.filterMap frame.to_other = [] := by
        constructor
        · refine List.filterMap_eq_nil_iff.mpr fun g hg => ?_
          have hg := hnone g hg
          cases g <;> simp_all [frame.packet, frame.to_tcp]
        · refine List.filterMap_eq_nil_iff.mpr fun g hg => ?_
          have hg := hnone g hg
          cases g <;> simp_all [frame.packet, frame.to_other]
      refine ⟨returned, hs.packets, ?_, ?_⟩
      · simpa [hmaps.1] using hclose.tcp_owed
      · simpa [hmaps.2] using hclose.other_owed
  · trivial

end steps

/-- In every run whose steps all meet the condition, each call of `packet_buffer_to_buffer` that returns
    -99 finds that every packet written before the latest `append_no_op` has been returned. -/
theorem drain_is_barrier (outgoing tcp : Mem) (actions : List Action)
    (hok : AllOk step Ok (start outgoing tcp) actions) :
    AllOk step Barrier (start outgoing tcp) actions := by
  have hrun : ∀ (actions : List Action) (s : Server) (returned : List frame), Inv s returned →
      AllOk step Ok s actions → AllOk step Barrier s actions := by
    intro actions
    induction actions with
    | nil => exact fun _ _ _ _ => trivial
    | cons a actions ih =>
      intro s returned hs hok
      obtain ⟨returned', hs'⟩ := hs.step hok.1
      exact ⟨hs.barrier a, ih _ returned' hs' hok.2⟩
  exact hrun actions _ [] (inv_start outgoing tcp) hok

/-- A server whose rings are allocated with zeros. -/
def zeroed : Server := start (fun _ => 0) fun _ => 0

def http_packet : tcp_packet := ⟨⟨1, 80, 0, 2, 81, 0⟩, 7, [65, 66]⟩

/-- A takeover with one packet in each ring. -/
def one_takeover : List Action :=
  [.call (.write_to_tcp_buffer http_packet), .call (.write_to_packet_buffer [67]), .append_no_op,
    .call (.dump_tcp_buffer fun _ _ => false), .call (.dump_tcp_buffer fun _ _ => false),
    .call .packet_buffer_to_buffer, .call .packet_buffer_to_buffer, .call .packet_buffer_to_buffer,
    .call .packet_buffer_to_buffer]

theorem one_takeover_drains :
    AllOk step Ok zeroed one_takeover ∧
      (packet_buffer_to_buffer (steps step zeroed (one_takeover.take 8)).base.pb).1 = -99 ∧
      AllOk step Barrier zeroed one_takeover := by
  have hok : AllOk step Ok zeroed one_takeover := by
    refine ⟨⟨⟨by decide, by decide +kernel⟩, ?_⟩, ⟨⟨by decide, by decide +kernel⟩, by simp⟩,
      ⟨by decide +kernel, by decide +kernel, rfl, by decide +kernel⟩,
      ⟨⟨by decide +kernel, fun _ => by decide +kernel⟩, by simp⟩,
      ⟨⟨by decide +kernel, fun _ => by decide +kernel⟩, by simp⟩,
      ⟨trivial, by simp⟩, ⟨trivial, by simp⟩, ⟨trivial, by simp⟩, ⟨trivial, by simp⟩, trivial⟩
    rintro p ⟨⟩
    rfl
  exact ⟨hok, by decide +kernel, drain_is_barrier (fun _ => 0) (fun _ => 0) one_takeover hok⟩

/-- The server takes over, is a follower again and gets a packet, and takes over a second time. -/
def second_takeover : List Action :=
  [.append_no_op, .call (.dump_tcp_buffer fun _ _ => false), .call .packet_buffer_to_buffer,
    .call .packet_buffer_to_buffer, .call (.write_to_tcp_buffer http_packet), .append_no_op,
    .call (.dump_tcp_buffer fun _ _ => false), .call .packet_buffer_to_buffer]

/-- The packet stands behind the first no-op entry, which is never taken out of the TCP ring. -/
theorem second_takeover_loses_packet :
    let s := steps step zeroed second_takeover
    (packet_buffer_to_buffer s.base.pb).1 = -99 ∧ ¬Drained s := by
  refine ⟨by decide +kernel, ?_⟩
  rintro ⟨frames, hpackets, howed, -⟩
  have hreturned : (steps step zeroed second_takeover).base.returned = [] := by decide +kernel
  rw [hreturned] at hpackets
  obtain rfl : frames = [] := List.map_eq_nil_iff.mp hpackets
  have hprefix : [http_packet] <+: [] := howed
  simp at hprefix

end packet_buffer.takeover
