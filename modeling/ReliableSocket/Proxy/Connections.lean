import Mathlib.Data.List.Nodup
import ReliableSocket.Proxy.Queue
import ReliableSocket.Table

open proxy run

namespace connections

/-- A client connection that is open at the leader; `number` counts the connections before it. -/
structure connection where
  clt_id : Int
  number : Nat
  connection_id : UInt16
deriving DecidableEq

/-- A pair of the follower's hash map. The socket `p_s` is named by the number of the connection that it
    was opened for. -/
structure follower_pair where
  connection_id : UInt16
  p_s : Nat
deriving DecidableEq

/-- `socket` is the new socket, if the call succeeds. -/
def do_action_connect (map : List follower_pair) (clt_id : UInt16) (socket : Option Nat) :
    List follower_pair :=
  match table.find follower_pair.connection_id map clt_id with
  | none =>
    match socket with
    | none => map
    | some p_s => ⟨clt_id, p_s⟩ :: map
  | some _ => map

/-- The socket that the data are written to. -/
def do_action_send (map : List follower_pair) (clt_id : UInt16) : Option Nat :=
  (table.find follower_pair.connection_id map clt_id).map follower_pair.p_s

def do_action_close (map : List follower_pair) (clt_id : UInt16) : List follower_pair :=
  table.remove follower_pair.connection_id map clt_id

/-- Data of a connection that were written to a socket. -/
structure write where
  number : Nat
  p_s : Nat
  data : List UInt8
deriving DecidableEq

/-- An entry on its way to the follower, with the number of its connection. -/
structure sent where
  entry : tailq_entry_t
  number : Nat
deriving DecidableEq

/-- The leader's proxy, how many connections there have been and which are open, the entries that the
    follower has not applied, and the follower's hash map and writes. -/
structure State where
  node : proxy_node
  connects : Nat
  opened : List connection
  pending : List sent
  follower_hash_map : List follower_pair
  writes : List write
deriving DecidableEq

/-- The number of the connection that a request belongs to. -/
def State.number (s : State) (r : request) : Nat :=
  match r.type with
  | .CONNECT => s.connects
  | _ => ((table.find connection.clt_id s.opened r.clt_id).map connection.number).getD 0

/-- The open connections after a request. -/
def State.opened_after (s : State) (r : request) (connection_id : UInt16) : List connection :=
  match r.type with
  | .CONNECT => ⟨r.clt_id, s.connects, connection_id⟩ :: s.opened
  | .CLOSE => table.remove connection.clt_id s.opened r.clt_id
  | _ => s.opened

def submit (node_id : UInt8) (s : State) (r : request) : State :=
  match leader_handle_submit_req node_id s.node r with
  | none => s
  | some (node, entry, _) =>
    { s with
      node := node
      connects := if r.type = .CONNECT then s.connects + 1 else s.connects
      opened := s.opened_after r entry.connection_id
      pending := s.pending ++ [⟨entry, s.number r⟩] }

/-- A call that acts on the guest, for a connection with this number; `socket` says whether the call of
    `socket` succeeds. -/
def perform (number : Nat) (socket : Bool) (s : State) : effect → State
  | .do_action_connect clt_id =>
    { s with follower_hash_map :=
        do_action_connect s.follower_hash_map clt_id (if socket then some number else none) }
  | .do_action_send clt_id data =>
    match do_action_send s.follower_hash_map clt_id with
    | none => s
    | some p_s => { s with writes := s.writes ++ [⟨number, p_s, data⟩] }
  | .do_action_close clt_id =>
    { s with follower_hash_map := do_action_close s.follower_hash_map clt_id }
  | .do_action_raw _ | .do_action_tcpnewcon _ => s

/-- The calls of `do_action_to_server` for an entry. -/
def sent.effects (x : sent) : List effect :=
  do_action_to_server x.entry.connection_id x.entry.type.val (x.entry.cmd.cmd.take x.entry.cmd.len.toNat)

/-- The follower applies the entries in their order, at any time. -/
def apply (s : State) (socket : Bool) : State :=
  match s.pending with
  | [] => s
  | x :: pending => x.effects.foldl (perform x.number socket) { s with pending := pending }

inductive Action where
  | submit (r : request)
  | apply (socket : Bool)
deriving DecidableEq

def step (node_id : UInt8) (s : State) : Action → State
  | .submit r => submit node_id s r
  | .apply socket => apply s socket

/-- Both proxies after `proxy_init`. -/
def start : State := ⟨⟨[], 0, 0, 0⟩, 0, [], [], [], []⟩

/-- The connections of the leader's hash map have distinct ids, and the follower has written to sockets
    of the same connection only. -/
def Separate (s : State) : Prop :=
  (s.node.leader_hash_map.map socket_pair.connection_id).Nodup ∧ ∀ w ∈ s.writes, w.p_s = w.number

/-- A connection is opened only while each open connection is among the last 255. -/
def RecentlyOpened (s : State) : Action → Prop
  | .submit r => r.type = .CONNECT → ∀ c ∈ s.opened, s.connects < c.number + 256
  | .apply _ => True

section leader

variable {node_id : UInt8} {map : List socket_pair} {opened : List connection} {pair : socket_pair}
  {clt_id : Int}

theorem gen_key_toNat (node_id node_count : UInt8) :
    (gen_key node_id node_count).toNat = node_id.toNat * 256 + node_count.toNat := by
  have hid := node_id.toNat_lt
  have hcount := node_count.toNat_lt
  have hshift : (node_id.toUInt16 <<< 8).toNat = node_id.toNat <<< 8 := by
    rw [UInt16.toNat_shiftLeft, Nat.shiftLeft_eq, Nat.shiftLeft_eq]
    simp
    omega
  rw [gen_key, UInt16.toNat_or, hshift, UInt8.toNat_toUInt16,
    ← Nat.shiftLeft_add_eq_or_of_lt hcount, Nat.shiftLeft_eq]

/-- The ids of two connections are equal exactly if a multiple of 256 connections lies between them. -/
theorem gen_key_eq_iff (node_id : UInt8) (m n : Nat) :
    gen_key node_id (UInt8.ofNat m) = gen_key node_id (UInt8.ofNat n) ↔ m % 256 = n % 256 := by
  rw [← UInt16.toNat_inj, gen_key_toNat, gen_key_toNat, UInt8.toNat_ofNat', UInt8.toNat_ofNat']
  omega

/-- The hash map has the open connections, for each descriptor in the same order. -/
def Same (map : List socket_pair) (opened : List connection) : Prop :=
  ∀ clt_id, (table.having socket_pair.clt_id map clt_id).map socket_pair.connection_id =
    (table.having connection.clt_id opened clt_id).map connection.connection_id

theorem Same.perm (hsame : Same map opened) :
    (map.map socket_pair.connection_id).Perm (opened.map connection.connection_id) :=
  table.perm_of_having hsame

/-- The pair that a lookup finds is that of the newest connection of the descriptor. -/
theorem Same.find (hsame : Same map opened)
    (hfind : table.find socket_pair.clt_id map clt_id = some pair) :
    ∃ c, table.find connection.clt_id opened clt_id = some c ∧ c.connection_id = pair.connection_id := by
  have hhead := congrArg List.head? (hsame clt_id)
  rw [List.head?_map, List.head?_map, ← table.find_eq_head, ← table.find_eq_head, hfind,
    Option.map_some, eq_comm, Option.map_eq_some_iff] at hhead
  exact hhead

theorem Same.connect (hsame : Same map opened) (pair : socket_pair) (number : Nat) :
    Same (pair :: map) (⟨pair.clt_id, number, pair.connection_id⟩ :: opened) := by
  intro clt_id
  rw [table.having_cons, table.having_cons]
  by_cases hkey : pair.clt_id = clt_id
  · rw [if_pos hkey, if_pos hkey, List.map_cons, List.map_cons, hsame clt_id]
  · rw [if_neg hkey, if_neg hkey]
    exact hsame clt_id

theorem Same.close (hsame : Same map opened) (clt_id : Int) :
    Same (table.remove socket_pair.clt_id map clt_id) (table.remove connection.clt_id opened clt_id) := by
  intro other
  by_cases hkey : clt_id = other
  · subst hkey
    rw [table.having_remove_self, table.having_remove_self, List.map_tail, List.map_tail, hsame clt_id]
  · rw [table.having_remove_of_ne hkey, table.having_remove_of_ne hkey]
    exact hsame other

/-- A pair that is taken out and put in front stays the first one of its descriptor. -/
theorem Same.send (hsame : Same map opened)
    (hfind : table.find socket_pair.clt_id map clt_id = some pair) {pair' : socket_pair}
    (hclt : pair'.clt_id = clt_id) (hid : pair'.connection_id = pair.connection_id) :
    Same (pair' :: table.remove socket_pair.clt_id map clt_id) opened := by
  intro other
  rw [table.having_cons, ← hsame other, hclt]
  by_cases hkey : clt_id = other
  · subst hkey
    rw [table.find_eq_head, List.head?_eq_some_iff] at hfind
    obtain ⟨rest, hrest⟩ := hfind
    rw [if_pos rfl, table.having_remove_self, hrest, List.map_cons, List.map_cons, hid, List.tail_cons]
  · rw [if_neg hkey, table.having_remove_of_ne hkey]

variable {s : State} {r : request} {c : connection}

theorem submit_connect (htype : r.type = .CONNECT) :
    submit node_id s r =
      { s with
        node :=
          { s.node with
            leader_hash_map := ⟨r.clt_id, 1, gen_key node_id s.node.pair_count⟩ :: s.node.leader_hash_map
            cur_rec := s.node.cur_rec + 1
            pair_count := s.node.pair_count + 1 }
        connects := s.connects + 1
        opened := ⟨r.clt_id, s.connects, gen_key node_id s.node.pair_count⟩ :: s.opened
        pending := s.pending ++
          [⟨submit_entry r 1 (gen_key node_id s.node.pair_count), s.connects⟩] } := by
  simp [submit, leader_handle_submit_req, submit_pair, State.opened_after, State.number, submit_entry,
    htype]

theorem submit_send (htype : r.type = .SEND)
    (hpair : table.find socket_pair.clt_id s.node.leader_hash_map r.clt_id = some pair)
    (hc : table.find connection.clt_id s.opened r.clt_id = some c) :
    submit node_id s r =
      { s with
        node :=
          { s.node with
            leader_hash_map := { pair with req_id := pair.req_id + 1 } ::
              table.remove socket_pair.clt_id s.node.leader_hash_map r.clt_id
            cur_rec := s.node.cur_rec + 1 }
        pending := s.pending ++ [⟨submit_entry r (pair.req_id + 1) pair.connection_id, c.number⟩] } := by
  have hfind : s.node.leader_hash_map.find? (fun x => x.clt_id = r.clt_id) = some pair := hpair
  rw [← table.erase_eq_remove hpair]
  simp [submit, leader_handle_submit_req, submit_pair, State.opened_after, State.number, submit_entry,
    htype, hfind, hc]

theorem submit_close (htype : r.type = .CLOSE)
    (hpair : table.find socket_pair.clt_id s.node.leader_hash_map r.clt_id = some pair)
    (hc : table.find connection.clt_id s.opened r.clt_id = some c) :
    submit node_id s r =
      { s with
        node :=
          { s.node with
            leader_hash_map := table.remove socket_pair.clt_id s.node.leader_hash_map r.clt_id
            cur_rec := s.node.cur_rec + 1 }
        opened := table.remove connection.clt_id s.opened r.clt_id
        pending := s.pending ++ [⟨submit_entry r (pair.req_id + 1) pair.connection_id, c.number⟩] } := by
  have hfind : s.node.leader_hash_map.find? (fun x => x.clt_id = r.clt_id) = some pair := hpair
  rw [← table.erase_eq_remove hpair]
  simp [submit, leader_handle_submit_req, submit_pair, State.opened_after, State.number, submit_entry,
    htype, hfind, hc]

/-- Without a pair the source dereferences a null pointer, and the request has no result. -/
theorem submit_without_pair (htype : r.type = .SEND ∨ r.type = .CLOSE)
    (hpair : table.find socket_pair.clt_id s.node.leader_hash_map r.clt_id = none) :
    submit node_id s r = s := by
  have hfind : s.node.leader_hash_map.find? (fun x => x.clt_id = r.clt_id) = none := hpair
  obtain htype | htype := htype
  all_goals simp [submit, leader_handle_submit_req, submit_pair, htype, hfind]

theorem submit_other (htype : r.type = .RAW ∨ r.type = .TCPNEWCON) :
    submit node_id s r =
      { s with
        node := { s.node with cur_rec := s.node.cur_rec + 1 }
        pending := s.pending ++ [⟨submit_entry r r.req_id r.connection_id, s.number r⟩] } := by
  obtain htype | htype := htype
  all_goals
    simp [submit, leader_handle_submit_req, submit_pair, State.opened_after, submit_entry, htype]

end leader

section follower

/-- The open connections by their ids, after an entry. -/
def live_after (live : UInt16 → Option Nat) (x : sent) : UInt16 → Option Nat :=
  match x.entry.type with
  | .CONNECT => Function.update live x.entry.connection_id (some x.number)
  | .CLOSE => Function.update live x.entry.connection_id none
  | .SEND | .RAW | .TCPNEWCON => live

/-- A new connection has a free id, the others have the id of their own. -/
def Fits (live : UInt16 → Option Nat) (x : sent) : Prop :=
  match x.entry.type with
  | .CONNECT => live x.entry.connection_id = none
  | .SEND | .CLOSE => live x.entry.connection_id = some x.number
  | .RAW | .TCPNEWCON => True

/-- `live` gives the numbers of the open connections. -/
def Live (opened : List connection) (live : UInt16 → Option Nat) : Prop :=
  ∀ id n, live id = some n ↔ ∃ c ∈ opened, c.connection_id = id ∧ c.number = n

/-- The follower's pairs have distinct ids, and their sockets were opened for the connections that have
    these ids. -/
structure Serves (map : List follower_pair) (live : UInt16 → Option Nat) : Prop where
  distinct : (map.map follower_pair.connection_id).Nodup
  owner : ∀ pair ∈ map, live pair.connection_id = some pair.p_s

variable {map : List follower_pair} {live : UInt16 → Option Nat} {opened : List connection}
  {c : connection} {id : UInt16} {n p_s : Nat}

theorem Live.mem (hlive : Live opened live) (hc : c ∈ opened) : live c.connection_id = some c.number :=
  (hlive _ _).mpr ⟨c, hc, rfl, rfl⟩

theorem Live.free (hlive : Live opened live) (hfree : id ∉ opened.map connection.connection_id) :
    live id = none := by
  rw [Option.eq_none_iff_forall_ne_some]
  intro n hn
  obtain ⟨c, hc, rfl, -⟩ := (hlive id n).mp hn
  exact hfree (List.mem_map_of_mem hc)

theorem Live.connect (hlive : Live opened live)
    (hfree : c.connection_id ∉ opened.map connection.connection_id) :
    Live (c :: opened) (Function.update live c.connection_id (some c.number)) := by
  intro id n
  by_cases hid : id = c.connection_id
  · subst hid
    rw [Function.update_self, Option.some.injEq]
    constructor
    · exact fun heq => ⟨c, by simp, rfl, heq⟩
    · rintro ⟨c', hc', hid, rfl⟩
      obtain rfl | hc' := List.mem_cons.mp hc'
      · rfl
      · exact absurd (hid ▸ List.mem_map_of_mem hc') hfree
  · rw [Function.update_of_ne hid, hlive id n]
    simp [Ne.symm hid]

theorem Live.close (hlive : Live opened live) (hdistinct : (opened.map connection.connection_id).Nodup)
    (hc : c ∈ opened) : Live (opened.erase c) (Function.update live c.connection_id none) := by
  intro id n
  have hother : ∀ c' ∈ opened, c'.connection_id = c.connection_id → c' = c := fun c' hc' hid =>
    List.inj_on_of_nodup_map hdistinct hc' hc hid
  simp only [hdistinct.of_map.mem_erase_iff]
  by_cases hid : id = c.connection_id
  · subst hid
    rw [Function.update_self]
    refine iff_of_false (by simp) ?_
    rintro ⟨c', ⟨hne, hc'⟩, heq, -⟩
    exact hne (hother c' hc' heq)
  · rw [Function.update_of_ne hid, hlive id n]
    constructor
    · rintro ⟨c', hc', rfl, rfl⟩
      exact ⟨c', ⟨fun heq => hid (heq ▸ rfl), hc'⟩, rfl, rfl⟩
    · rintro ⟨c', ⟨-, hc'⟩, heq⟩
      exact ⟨c', hc', heq⟩

theorem Serves.connect (hserves : Serves map live) (hfree : live id = none) {socket : Option Nat}
    (hsocket : ∀ p_s ∈ socket, p_s = n) :
    Serves (do_action_connect map id socket) (Function.update live id (some n)) := by
  have hne : ∀ pair ∈ map, pair.connection_id ≠ id := by
    rintro pair hpair rfl
    rw [hserves.owner pair hpair] at hfree
    exact absurd hfree (by simp)
  have hold : Serves map (Function.update live id (some n)) := by
    refine ⟨hserves.distinct, fun pair hpair => ?_⟩
    rw [Function.update_of_ne (hne pair hpair)]
    exact hserves.owner pair hpair
  unfold do_action_connect
  split
  · split
    · exact hold
    · rename_i p_s
      refine ⟨List.nodup_cons.mpr ⟨?_, hserves.distinct⟩, ?_⟩
      · rw [List.mem_map]
        rintro ⟨pair, hpair, hid⟩
        exact hne pair hpair hid
      · rw [List.forall_mem_cons]
        exact ⟨by rw [Function.update_self, hsocket p_s rfl], hold.owner⟩
  · exact hold

theorem Serves.send (hserves : Serves map live) (hlive : live id = some n)
    (hsend : do_action_send map id = some p_s) : p_s = n := by
  obtain ⟨pair, hfind, rfl⟩ := Option.map_eq_some_iff.mp hsend
  have howner := hserves.owner pair (table.mem_of_find hfind)
  rw [table.key_of_find hfind, hlive, Option.some.injEq] at howner
  exact howner.symm

theorem Serves.close (hserves : Serves map live) (id : UInt16) :
    Serves (do_action_close map id) (Function.update live id none) := by
  have hsub : (do_action_close map id).Sublist map := List.eraseP_sublist
  refine ⟨(hsub.map _).nodup hserves.distinct, fun pair hpair => ?_⟩
  have hne : pair.connection_id ≠ id := table.ne_of_mem_remove hserves.distinct hpair
  rw [Function.update_of_ne hne]
  exact hserves.owner pair (hsub.mem hpair)

end follower

section runs

variable {node_id : UInt8} {s : State}

/-- What holds in every state that is reached while connections are opened as required. -/
structure Inv (node_id : UInt8) (s : State) : Prop where
  same : Same s.node.leader_hash_map s.opened
  count : s.node.pair_count = UInt8.ofNat s.connects
  distinct : (s.opened.map connection.connection_id).Nodup
  ids : ∀ c ∈ s.opened, c.connection_id = gen_key node_id (UInt8.ofNat c.number)
  recent : ∀ c ∈ s.opened, c.number < s.connects ∧ s.connects ≤ c.number + 256
  follower : ∃ live, Serves s.follower_hash_map live ∧ AllOk live_after Fits live s.pending ∧
    Live s.opened (steps live_after live s.pending)
  writes : ∀ w ∈ s.writes, w.p_s = w.number

theorem inv_start (node_id : UInt8) : Inv node_id start where
  same := fun _ => rfl
  count := rfl
  distinct := List.nodup_nil
  ids := by simp [start]
  recent := by simp [start]
  follower := ⟨fun _ => none, ⟨List.nodup_nil, by simp [start]⟩, trivial, by simp [Live, start]⟩
  writes := by simp [start]

theorem Inv.separate (hs : Inv node_id s) : Separate s :=
  ⟨hs.same.perm.nodup_iff.mpr hs.distinct, hs.writes⟩

/-- The next id is free exactly if each open connection is among the last 255. -/
theorem Inv.free_iff (hs : Inv node_id s) :
    gen_key node_id s.node.pair_count ∉ s.opened.map connection.connection_id ↔
      ∀ c ∈ s.opened, s.connects < c.number + 256 := by
  rw [hs.count, List.mem_map]
  constructor
  · intro hfree c hc
    obtain ⟨hbefore, hrecent⟩ := hs.recent c hc
    by_contra hold
    refine hfree ⟨c, hc, ?_⟩
    rw [hs.ids c hc, gen_key_eq_iff]
    omega
  · rintro hrecent ⟨c, hc, hid⟩
    have hbefore := (hs.recent c hc).1
    have hnear := hrecent c hc
    rw [hs.ids c hc, gen_key_eq_iff] at hid
    omega

/-- A submission sends one entry, which fits if it fits the open connections. -/
theorem Inv.send_entry (hs : Inv node_id s) {x : sent} {opened : List connection}
    (hfits : ∀ live, Live s.opened live → Fits live x ∧ Live opened (live_after live x)) :
    ∃ live, Serves s.follower_hash_map live ∧ AllOk live_after Fits live (s.pending ++ [x]) ∧
      Live opened (steps live_after live (s.pending ++ [x])) := by
  obtain ⟨live, hserves, hpending, hlive⟩ := hs.follower
  obtain ⟨hfit, hafter⟩ := hfits _ hlive
  refine ⟨live, hserves, allOk_concat.mpr ⟨hpending, hfit⟩, ?_⟩
  rw [steps_concat]
  exact hafter

theorem Inv.connect (hs : Inv node_id s) {r : request} (htype : r.type = .CONNECT)
    (hrecent : ∀ c ∈ s.opened, s.connects < c.number + 256) : Inv node_id (submit node_id s r) := by
  have hfree := hs.free_iff.mpr hrecent
  have hnear : ∀ c ∈ s.opened, c.number < s.connects + 1 ∧ s.connects + 1 ≤ c.number + 256 := by
    intro c hc
    have hbefore := (hs.recent c hc).1
    have hlast := hrecent c hc
    omega
  rw [submit_connect htype]
  refine ⟨hs.same.connect _ _, ?_, List.nodup_cons.mpr ⟨hfree, hs.distinct⟩,
    List.forall_mem_cons.mpr ⟨by rw [hs.count], hs.ids⟩,
    List.forall_mem_cons.mpr ⟨⟨Nat.lt_succ_self _, Nat.add_le_add_left (by decide) _⟩, hnear⟩, ?_,
    hs.writes⟩
  · dsimp only
    rw [hs.count, UInt8.ofNat_add]
    rfl
  · refine hs.send_entry fun live hlive => ?_
    simp only [Fits, live_after, submit_entry, htype]
    exact ⟨hlive.free hfree, hlive.connect hfree⟩

theorem Inv.send (hs : Inv node_id s) {r : request} (htype : r.type = .SEND) :
    Inv node_id (submit node_id s r) := by
  cases hpair : table.find socket_pair.clt_id s.node.leader_hash_map r.clt_id with
  | none => rwa [submit_without_pair (.inl htype) hpair]
  | some pair =>
    obtain ⟨c, hc, hid⟩ := hs.same.find hpair
    have hclt : pair.clt_id = r.clt_id := table.key_of_find hpair
    rw [submit_send htype hpair hc]
    refine ⟨hs.same.send hpair hclt rfl, hs.count, hs.distinct, hs.ids, hs.recent,
      hs.send_entry fun live hlive => ?_, hs.writes⟩
    simp only [Fits, live_after, submit_entry, htype]
    exact ⟨hid ▸ hlive.mem (table.mem_of_find hc), hlive⟩

theorem Inv.close (hs : Inv node_id s) {r : request} (htype : r.type = .CLOSE) :
    Inv node_id (submit node_id s r) := by
  cases hpair : table.find socket_pair.clt_id s.node.leader_hash_map r.clt_id with
  | none => rwa [submit_without_pair (.inr htype) hpair]
  | some pair =>
    obtain ⟨c, hc, hid⟩ := hs.same.find hpair
    have hmem := table.mem_of_find hc
    have hsub : (table.remove connection.clt_id s.opened r.clt_id).Sublist s.opened :=
      List.eraseP_sublist
    rw [submit_close htype hpair hc]
    refine ⟨hs.same.close r.clt_id, hs.count, (hsub.map _).nodup hs.distinct,
      fun c hc => hs.ids c (hsub.mem hc), fun c hc => hs.recent c (hsub.mem hc),
      hs.send_entry fun live hlive => ?_, hs.writes⟩
    simp only [Fits, live_after, submit_entry, htype]
    rw [← hid, ← table.erase_eq_remove hc]
    exact ⟨hlive.mem hmem, hlive.close hs.distinct hmem⟩

theorem Inv.other (hs : Inv node_id s) {r : request} (htype : r.type = .RAW ∨ r.type = .TCPNEWCON) :
    Inv node_id (submit node_id s r) := by
  rw [submit_other htype]
  refine ⟨hs.same, hs.count, hs.distinct, hs.ids, hs.recent, hs.send_entry fun live hlive => ?_,
    hs.writes⟩
  obtain htype | htype := htype
  all_goals
    simp only [Fits, live_after, submit_entry, htype]
    exact ⟨trivial, hlive⟩

/-- Each kind of entry has one call. -/
theorem sent.effects_eq (x : sent) :
    x.effects = [match x.entry.type with
      | .CONNECT => .do_action_connect x.entry.connection_id
      | .SEND => .do_action_send x.entry.connection_id (x.entry.cmd.cmd.take x.entry.cmd.len.toNat)
      | .CLOSE => .do_action_close x.entry.connection_id
      | .RAW => .do_action_raw (x.entry.cmd.cmd.take x.entry.cmd.len.toNat)
      | .TCPNEWCON => .do_action_tcpnewcon (x.entry.cmd.cmd.take x.entry.cmd.len.toNat)] := by
  rw [sent.effects]
  cases x.entry.type <;> rfl

/-- What the follower does with an entry that fits the connections as it knows them. -/
theorem effects_serve {live : UInt16 → Option Nat} (hserves : Serves s.follower_hash_map live)
    {x : sent} (hfits : Fits live x) (socket : Bool) :
    ∃ map writes, x.effects.foldl (perform x.number socket) s =
        { s with follower_hash_map := map, writes := s.writes ++ writes } ∧
      Serves map (live_after live x) ∧ ∀ w ∈ writes, w.p_s = w.number := by
  rw [sent.effects_eq, List.foldl_cons, List.foldl_nil]
  unfold Fits live_after at *
  cases htype : x.entry.type with
  | CONNECT =>
    simp only [htype, perform] at hfits ⊢
    refine ⟨_, [], by rw [List.append_nil], hserves.connect hfits ?_, by simp⟩
    cases socket <;> simp
  | SEND =>
    simp only [htype, perform] at hfits ⊢
    cases hsend : do_action_send s.follower_hash_map x.entry.connection_id with
    | none => exact ⟨_, [], by simp, hserves, by simp⟩
    | some p_s =>
      refine ⟨s.follower_hash_map, [_], rfl, hserves, List.forall_mem_singleton.mpr ?_⟩
      exact hserves.send hfits hsend
  | CLOSE => exact ⟨_, [], by rw [List.append_nil, perform], hserves.close _, by simp⟩
  | RAW => exact ⟨_, [], by rw [List.append_nil, perform], hserves, by simp⟩
  | TCPNEWCON => exact ⟨_, [], by rw [List.append_nil, perform], hserves, by simp⟩

theorem Inv.apply (hs : Inv node_id s) (socket : Bool) : Inv node_id (apply s socket) := by
  obtain ⟨live, hserves, hpending, hlive⟩ := hs.follower
  unfold connections.apply
  split
  · exact hs
  · rename_i x pending hx
    rw [hx] at hpending hlive
    obtain ⟨map, writes, heq, hserves', hright⟩ := effects_serve
      (s := { s with pending := pending }) hserves hpending.1 socket
    rw [heq]
    exact ⟨hs.same, hs.count, hs.distinct, hs.ids, hs.recent, ⟨_, hserves', hpending.2, hlive⟩,
      List.forall_mem_append.mpr ⟨hs.writes, hright⟩⟩

theorem inv_step (s : State) (a : Action) (hs : Inv node_id s) (hok : RecentlyOpened s a) :
    Inv node_id (step node_id s a) := by
  cases a with
  | submit r =>
    cases htype : r.type with
    | CONNECT => exact hs.connect htype (hok htype)
    | SEND => exact hs.send htype
    | CLOSE => exact hs.close htype
    | RAW => exact hs.other (.inl htype)
    | TCPNEWCON => exact hs.other (.inr htype)
  | apply socket => exact hs.apply socket

/-- A new connection whose id is not used was opened as required. -/
theorem recentlyOpened_of_separate (s : State) (a : Action) (hs : Inv node_id s)
    (hsep : Separate (step node_id s a)) : RecentlyOpened s a := by
  cases a with
  | submit r =>
    intro htype
    have hnodup := hsep.1
    rw [step, submit_connect htype, List.map_cons, List.nodup_cons, hs.same.perm.mem_iff] at hnodup
    exact hs.free_iff.mp hnodup.1
  | apply socket => trivial

end runs

/-- For every run of submissions at a leader, with a follower that applies the entries at any time: the
    open connections always have distinct ids and the follower writes the data of a connection to its own
    socket only, exactly when each CONNECT comes while every open connection is among the last 255. -/
theorem connections_stay_separate (node_id : UInt8) (actions : List Action) :
    Always (step node_id) Separate start actions ↔ AllOk (step node_id) RecentlyOpened start actions :=
  always_iff_allOk inv_step recentlyOpened_of_separate (fun _ hs => hs.separate) (inv_start node_id)
    actions

/-- A connection with one byte of data. -/
def request_of (type : req_type) (clt_id : Int) : request := ⟨type, [42], clt_id, 0, 0⟩

/-- While the first connection stays open, 255 others come and go: the next one gets the same id, and
    the follower writes its data to the socket of the first. -/
theorem shared_connection_id :
    let s := steps (step 0) start
      ([.submit (request_of .CONNECT 3), .apply true] ++
        (List.replicate 255 [.submit (request_of .CONNECT 4), .apply true,
          .submit (request_of .CLOSE 4), .apply true]).flatten ++
        [.submit (request_of .CONNECT 4), .apply true, .submit (request_of .SEND 4), .apply true])
    s.node.leader_hash_map = [⟨4, 2, 0⟩, ⟨3, 1, 0⟩] ∧ s.writes = [⟨256, 0, [42]⟩] := by
  decide +kernel

end connections
