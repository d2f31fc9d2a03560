import ReliableSocket.Run
import ReliableSocket.Table

open run

namespace con_manager

def CONNECT_CON : UInt16 := 1

def ACCEPT_CON : UInt16 := 2

def CONNECT_QUERY : UInt16 := 3

structure con_id_type where
  src_ip : UInt32
  src_port : UInt16
  dst_ip : UInt32
  dst_port : UInt16
deriving DecidableEq

structure con_info_type where
  con_id : con_id_type
  send_seq : UInt32
  recv_seq : UInt32
  has_timestamp : UInt16
  timestamp : UInt32
  mss_clamp : UInt32
  snd_wscale : UInt32
  rcv_wscale : UInt32
  has_rcv_wscale : UInt16
  con_type : UInt16
deriving DecidableEq

structure con_list_key where
  dst_ip : UInt32
  dst_port : UInt16
deriving DecidableEq

structure con_list_entry where
  key : con_list_key
  src_ip : UInt32
  src_port : UInt16
  send_seq : UInt32
  recv_seq : UInt32
  has_timestamp : UInt16
  timestamp : UInt32
  mss_clamp : UInt32
  snd_wscale : UInt32
  rcv_wscale : UInt32
  has_rcv_wscale : UInt16
deriving DecidableEq

/-- The destination, which is all that a lookup compares. -/
def con_info_type.key (con_info : con_info_type) : con_list_key where
  dst_ip := con_info.con_id.dst_ip
  dst_port := con_info.con_id.dst_port

/-- The entry that `hash_insert` fills. -/
def con_info_type.entry (con_info : con_info_type) : con_list_entry where
  key := con_info.key
  src_ip := con_info.con_id.src_ip
  src_port := con_info.con_id.src_port
  send_seq := con_info.send_seq
  recv_seq := con_info.recv_seq
  has_timestamp := con_info.has_timestamp
  timestamp := con_info.timestamp
  mss_clamp := con_info.mss_clamp
  snd_wscale := con_info.snd_wscale
  rcv_wscale := con_info.rcv_wscale
  has_rcv_wscale := con_info.has_rcv_wscale

def hash_insert (connect_con_list : List con_list_entry) (con_info : con_info_type) :
    List con_list_entry :=
  table.replace con_list_entry.key connect_con_list con_info.entry

/-- A query with the source and the sequence data of an entry. -/
def con_info_type.fill (con_info : con_info_type) (entry : con_list_entry) : con_info_type where
  con_id := { con_info.con_id with src_ip := entry.src_ip, src_port := entry.src_port }
  send_seq := entry.send_seq
  recv_seq := entry.recv_seq
  has_timestamp := entry.has_timestamp
  timestamp := entry.timestamp
  mss_clamp := entry.mss_clamp
  snd_wscale := entry.snd_wscale
  rcv_wscale := entry.rcv_wscale
  has_rcv_wscale := entry.has_rcv_wscale
  con_type := con_info.con_type

def hash_find (connect_con_list : List con_list_entry) (con_info : con_info_type) :
    Option con_info_type :=
  (table.find con_list_entry.key connect_con_list con_info.key).map con_info.fill

/-- The variables of the connection manager; `reporting` says that the thread of `serve_report` has not
    ended. -/
structure manager where
  iamleader : Bool
  connect_con_list : List con_list_entry
  reporting : Bool
deriving DecidableEq

/-- A turn of `serve_report` saves this connection. -/
def saves (m : manager) (from_host : Bool) (con_info : con_info_type) : Bool :=
  m.reporting && from_host && !m.iamleader && con_info.con_type = CONNECT_CON

/-- A turn of the loop of `serve_report`. `connected` is the outcome of `create_connection`, which ends
    the thread when it fails. -/
def serve_report (m : manager) (from_host : Bool) (con_info : con_info_type) (connected : Bool) :
    manager :=
  if m.reporting && from_host && !m.iamleader then
    if con_info.con_type = ACCEPT_CON then { m with reporting := connected }
    else if con_info.con_type = CONNECT_CON then
      { m with connect_con_list := hash_insert m.connect_con_list con_info }
    else m
  else m

/-- What a thread of `serve_query` sends back for a connection. -/
inductive answer where
  | consensus
  | no_info
  | info (con_info : con_info_type)
  | nothing
deriving DecidableEq

/-- A turn of the loop of `serve_query`. The leader sends the connection for consensus. -/
def serve_query (m : manager) (con_info : con_info_type) : answer :=
  if m.iamleader then .consensus
  else if con_info.con_type = CONNECT_QUERY then
    match hash_find m.connect_con_list con_info with
    | none => .no_info
    | some con_info => .info con_info
  else .nothing

/-- A heartbeat says whether the host of this guest leads. -/
def recv_hb (m : manager) (leads : Bool) : manager := { m with iamleader := leads }

/-- What the threads do; the spin lock makes the access to the table atomic. -/
inductive Action where
  | hb (leads : Bool)
  | report (from_host : Bool) (con_info : con_info_type) (connected : Bool)
  | query (con_info : con_info_type)
deriving DecidableEq

/-- The manager with the reports that it has saved and the destinations of the lookups that have
    succeeded, the oldest first. -/
structure State where
  manager : manager
  reports : List con_info_type
  lookups : List con_list_key
deriving DecidableEq

def step (s : State) : Action → State
  | .hb leads => { s with manager := recv_hb s.manager leads }
  | .report from_host con_info connected =>
    { s with
      manager := serve_report s.manager from_host con_info connected
      reports := if saves s.manager from_host con_info then s.reports ++ [con_info] else s.reports }
  | .query con_info =>
    match serve_query s.manager con_info with
    | .info con_info => { s with lookups := s.lookups ++ [con_info.key] }
    | _ => s

/-- The state after `init_con_manager_guest`. -/
def init_con_manager_guest : State := ⟨⟨false, [], true⟩, [], []⟩

/-- The saved reports for a destination. -/
def State.reports_for (s : State) (key : con_list_key) : List con_info_type :=
  s.reports.filter (·.key = key)

/-- The report whose turn is next at a destination: if `k` lookups for it have succeeded, the `k`-th
    one, counted from zero. -/
def State.next_report (s : State) (key : con_list_key) : Option con_info_type :=
  (s.reports_for key)[s.lookups.count key]?

/-- A lookup that succeeds returns the source and sequence data of the report whose turn is next. -/
def OwnConnection (s : State) : Action → Prop
  | .query con_info => ∀ found, serve_query s.manager con_info = .info found →
      (s.next_report con_info.key).map con_info_type.entry = some found.entry
  | .hb _ | .report .. => True

/-- The backup looks up a destination only while the report whose turn is next has the data of the latest
    one, or there is none at all. -/
def InTurn (s : State) : Action → Prop
  | .query con_info => s.manager.iamleader = false → con_info.con_type = CONNECT_QUERY →
      (s.next_report con_info.key).map con_info_type.entry =
        (s.reports_for con_info.key).getLast?.map con_info_type.entry
  | .hb _ | .report .. => True

/-- The entry for a destination is that of the latest report. -/
def Latest (s : State) : Prop :=
  ∀ key, table.find con_list_entry.key s.manager.connect_con_list key =
    (s.reports_for key).getLast?.map con_info_type.entry

section lookups

/-- A lookup returns the query with the data of the entry that it finds. -/
theorem hash_find_entry (list : List con_list_entry) (con_info : con_info_type) :
    (hash_find list con_info).map con_info_type.entry =
      table.find con_list_entry.key list con_info.key := by
  rw [hash_find]
  cases hfind : table.find con_list_entry.key list con_info.key with
  | none => rfl
  | some entry =>
    obtain ⟨key, src_ip, src_port⟩ := entry
    obtain rfl : key = con_info.key := table.key_of_find hfind
    rfl

theorem serve_query_info {m : manager} {con_info found : con_info_type} :
    serve_query m con_info = .info found ↔
      m.iamleader = false ∧ con_info.con_type = CONNECT_QUERY ∧
        hash_find m.connect_con_list con_info = some found := by
  unfold serve_query
  by_cases hleader : m.iamleader = true
  · simp [hleader]
  · by_cases htype : con_info.con_type = CONNECT_QUERY
    · cases hfind : hash_find m.connect_con_list con_info <;> simp [hleader, htype]
    · simp [hleader, htype]

theorem find_hash_insert (list : List con_list_entry) (con_info : con_info_type) (key : con_list_key) :
    table.find con_list_entry.key (hash_insert list con_info) key =
      if con_info.key = key then some con_info.entry else table.find con_list_entry.key list key := by
  by_cases hkey : con_info.key = key
  · subst hkey
    rw [if_pos rfl]
    exact table.find_replace_self list con_info.entry
  · rw [if_neg hkey]
    exact table.find_replace_of_ne hkey

theorem latest_start : Latest init_con_manager_guest := fun _ => rfl

/-- A report moves into the table exactly if it counts as saved. -/
theorem serve_report_list (m : manager) (from_host : Bool) (con_info : con_info_type)
    (connected : Bool) :
    (serve_report m from_host con_info connected).connect_con_list =
      if saves m from_host con_info then hash_insert m.connect_con_list con_info
      else m.connect_con_list := by
  unfold serve_report saves
  by_cases hserve : (m.reporting && from_host && !m.iamleader) = true
  · rw [if_pos hserve, hserve, Bool.true_and]
    by_cases haccept : con_info.con_type = ACCEPT_CON
    · rw [if_pos haccept, haccept]
      rfl
    · rw [if_neg haccept]
      by_cases hconnect : con_info.con_type = CONNECT_CON <;> simp [hconnect]
  · rw [if_neg hserve, Bool.eq_false_iff.mpr hserve]
    rfl

theorem latest_insert {s : State} (hs : Latest s) (con_info : con_info_type) (key : con_list_key) :
    table.find con_list_entry.key (hash_insert s.manager.connect_con_list con_info) key =
      (((s.reports ++ [con_info]).filter (·.key = key)).getLast?).map con_info_type.entry := by
  rw [find_hash_insert, hs key, List.filter_append, State.reports_for]
  by_cases hkey : con_info.key = key
  · simp [hkey]
  · simp [hkey]

theorem step_latest (s : State) (a : Action) (hs : Latest s) : Latest (step s a) := by
  intro key
  cases a with
  | hb leads => exact hs key
  | report from_host con_info connected =>
    simp only [step, State.reports_for]
    rw [serve_report_list]
    split
    · exact latest_insert hs con_info key
    · exact hs key
  | query con_info =>
    rw [step]
    split <;> exact hs key

/-- A lookup is right exactly when it is made in turn. -/
theorem ownConnection_iff_inTurn (s : State) (a : Action) (hs : Latest s) :
    OwnConnection s a ↔ InTurn s a := by
  cases a with
  | hb leads => exact Iff.rfl
  | report from_host con_info connected => exact Iff.rfl
  | query con_info =>
    simp only [OwnConnection, InTurn, serve_query_info]
    have hfind := hash_find_entry s.manager.connect_con_list con_info
    rw [hs con_info.key] at hfind
    rw [← hfind]
    constructor
    · intro hright hleader htype
      cases hfound : hash_find s.manager.connect_con_list con_info with
      | none =>
        -- without an entry there is no report at all
        rw [hfound, Option.map_none, eq_comm, Option.map_eq_none_iff, List.getLast?_eq_none_iff] at hfind
        rw [State.next_report, hfind, List.getElem?_nil]
      | some found => exact hright found ⟨hleader, htype, hfound⟩
    · rintro hturn found ⟨hleader, htype, hfound⟩
      rw [hturn hleader htype, hfound, Option.map_some]

end lookups

/-- For every interleaving of heartbeats, reports and lookups: each lookup that succeeds returns the data
    of the report whose turn it is at its destination, exactly when each lookup is made while that report
    has the data of the latest one. -/
theorem lookups_return_own_connection (actions : List Action) :
    AllOk step OwnConnection init_con_manager_guest actions ↔
      AllOk step InTurn init_con_manager_guest actions :=
  allOk_congr step_latest ownConnection_iff_inTurn latest_start actions

/-- The report of a connection from this port to one server. -/
def connection (src_port : UInt16) (send_seq : UInt32) : con_info_type where
  con_id := ⟨0x0A160102, src_port, 0x0A160103, 80⟩
  send_seq := send_seq
  recv_seq := 500
  has_timestamp := 0
  timestamp := 0
  mss_clamp := 1460
  snd_wscale := 7
  rcv_wscale := 7
  has_rcv_wscale := 1
  con_type := CONNECT_CON

/-- What `connect` asks for on the backup. -/
def query : con_info_type :=
  ⟨⟨0, 0, 0x0A160103, 80⟩, 0, 0, 0, 0, 0, 0, 0, 0, CONNECT_QUERY⟩

/-- Two connections to one server are reported before the backup asks: both lookups get the second one,
    and nobody the first. -/
theorem second_report_hides_first :
    let s := steps step init_con_manager_guest
      [.report true (connection 1001 7) true, .report true (connection 1002 8) true]
    let s' := step s (.query query)
    s.next_report query.key = some (connection 1001 7) ∧
      serve_query s.manager query = .info { connection 1002 8 with con_type := CONNECT_QUERY } ∧
      s'.next_report query.key = some (connection 1002 8) ∧
      serve_query s'.manager query = .info { connection 1002 8 with con_type := CONNECT_QUERY } := by
  decide

end con_manager
