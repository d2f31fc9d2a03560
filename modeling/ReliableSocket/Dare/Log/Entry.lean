import ReliableSocket.Ring
import ReliableSocket.Dare.Log.Basic

open memory ring

namespace dare.log

/-- Type and data of the entry at an offset. -/
def read_data (m : Mem) (entry : Nat) : log_data :=
  if hnoop : entry_type m entry = NOOP then .noop
  else if hconfig : entry_type m entry = CONFIG then .config (dare_cid_t.read m (entry + DATA_OFFSET))
  else if hhead : entry_type m entry = HEAD then .head (loadU64 m (entry + DATA_OFFSET))
  else .cmd ⟨entry_type m entry, hnoop, hconfig, hhead⟩
    ⟨load m (entry + CMD_OFFSET) (entry_cmd_len m entry).toNat, by
      simpa using (entry_cmd_len m entry).toNat_lt⟩

/-- The entry at an offset. -/
def read_entry (m : Mem) (entry : Nat) : dare_log_entry_t where
  idx := entry_idx m entry
  term := entry_term m entry
  req_id := entry_req_id m entry
  clt_id := entry_clt_id m entry
  data := read_data m entry

/-- The bytes of the command, if the entry has one. -/
def log_data.cmd_bytes : log_data → List UInt8
  | .cmd _ c => c.cmd
  | _ => []

/-- The length of an entry in the log. -/
def dare_log_entry_t.len (x : dare_log_entry_t) : Nat := SIZEOF_ENTRY + x.data.cmd_bytes.length

theorem dare_log_entry_t.le_len (x : dare_log_entry_t) : SIZEOF_ENTRY ≤ x.len := by
  unfold len
  omega

theorem dare_log_entry_t.len_lt (x : dare_log_entry_t) : x.len < SIZEOF_ENTRY + 2 ^ 16 := by
  have hcmd : x.data.cmd_bytes.length < 2 ^ 16 := by
    cases hdata : x.data with
    | cmd type c => exact c.len_lt
    | noop => simp [log_data.cmd_bytes]
    | config cid => simp [log_data.cmd_bytes]
    | head offset => simp [log_data.cmd_bytes]
  unfold len
  omega

section read_data

variable {m : Mem} {entry : Nat}

theorem read_data_noop (hnoop : entry_type m entry = NOOP) : read_data m entry = .noop := by
  simp [read_data, hnoop]

theorem read_data_config (hconfig : entry_type m entry = CONFIG) :
    read_data m entry = .config (dare_cid_t.read m (entry + DATA_OFFSET)) := by
  simp [read_data, hconfig, NOOP, CONFIG]

theorem read_data_head (hhead : entry_type m entry = HEAD) :
    read_data m entry = .head (loadU64 m (entry + DATA_OFFSET)) := by
  simp [read_data, hhead, NOOP, CONFIG, HEAD]

theorem read_data_cmd (hcmd : entry_type m entry ≠ NOOP ∧ entry_type m entry ≠ CONFIG ∧
    entry_type m entry ≠ HEAD) :
    read_data m entry = .cmd ⟨entry_type m entry, hcmd⟩
      ⟨load m (entry + CMD_OFFSET) (entry_cmd_len m entry).toNat, by
        simpa using (entry_cmd_len m entry).toNat_lt⟩ := by
  simp [read_data, hcmd.1, hcmd.2.1, hcmd.2.2]

theorem type_cases (type : UInt8) :
    type = NOOP ∨ type = CONFIG ∨ type = HEAD ∨ (type ≠ NOOP ∧ type ≠ CONFIG ∧ type ≠ HEAD) := by
  by_cases hnoop : type = NOOP
  · exact .inl hnoop
  · by_cases hconfig : type = CONFIG
    · exact .inr (.inl hconfig)
    · by_cases hhead : type = HEAD
      · exact .inr (.inr (.inl hhead))
      · exact .inr (.inr (.inr ⟨hnoop, hconfig, hhead⟩))

theorem read_data_type (m : Mem) (entry : Nat) : (read_data m entry).type = entry_type m entry := by
  obtain htype | htype | htype | htype := type_cases (entry_type m entry)
  · rw [read_data_noop htype, htype]
    rfl
  · rw [read_data_config htype, htype]
    rfl
  · rw [read_data_head htype, htype]
    rfl
  · rw [read_data_cmd htype]
    rfl

theorem read_entry_len (m : Mem) (entry : Nat) : (read_entry m entry).len = log_entry_len m entry := by
  unfold dare_log_entry_t.len log_entry_len read_entry
  obtain htype | htype | htype | htype := type_cases (entry_type m entry)
  · simp [read_data_noop htype, htype, log_data.cmd_bytes]
  · simp [read_data_config htype, htype, log_data.cmd_bytes]
  · simp [read_data_head htype, htype, log_data.cmd_bytes]
  · simp [read_data_cmd htype, htype, log_data.cmd_bytes]

end read_data

/-- The header of `x` stands at an offset: what is left there of an entry that did not fit. -/
structure HasHeader (m : Mem) (entry : Nat) (x : dare_log_entry_t) : Prop where
  idx : entry_idx m entry = x.idx
  term : entry_term m entry = x.term
  req_id : entry_req_id m entry = x.req_id
  clt_id : entry_clt_id m entry = x.clt_id
  type : entry_type m entry = x.type
  len : log_entry_len m entry = x.len

theorem hasHeader_of_read_entry {m : Mem} {entry : Nat} {x : dare_log_entry_t}
    (hread : read_entry m entry = x) : HasHeader m entry x := by
  subst hread
  exact ⟨rfl, rfl, rfl, rfl, (read_data_type m entry).symm, (read_entry_len m entry).symm⟩

section congr

variable {m m' : Mem} {entry : Nat}

/-- The fixed part of an entry determines every field but the command bytes. -/
theorem fields_congr (hagree : ∀ b, entry ≤ b → b < entry + SIZEOF_ENTRY → m b = m' b) :
    entry_idx m entry = entry_idx m' entry ∧ entry_term m entry = entry_term m' entry ∧
      entry_req_id m entry = entry_req_id m' entry ∧ entry_clt_id m entry = entry_clt_id m' entry ∧
      entry_type m entry = entry_type m' entry ∧ entry_cmd_len m entry = entry_cmd_len m' entry := by
  unfold SIZEOF_ENTRY at hagree
  have hblock : ∀ k n, k + n ≤ 48 → load m (entry + k) n = load m' (entry + k) n := by
    intro k n hfits
    exact load_congr fun b _ _ => hagree b (by omega) (by omega)
  have hidx := hblock 0 8 (by omega)
  simp only [Nat.add_zero] at hidx
  simp only [entry_idx, entry_term, entry_req_id, entry_clt_id, entry_type, entry_cmd_len, loadU64,
    loadU16, DATA_OFFSET, hidx, hblock 8 8 (by omega), hblock 16 8 (by omega),
    hblock 24 2 (by omega), hblock 32 2 (by omega), hagree (entry + 26) (by omega) (by omega),
    and_self]

theorem log_entry_len_congr (hagree : ∀ b, entry ≤ b → b < entry + SIZEOF_ENTRY → m b = m' b) :
    log_entry_len m entry = log_entry_len m' entry := by
  obtain ⟨-, -, -, -, htype, hlen⟩ := fields_congr hagree
  simp only [log_entry_len, htype, hlen]

theorem hasHeader_congr {x : dare_log_entry_t}
    (hagree : ∀ b, entry ≤ b → b < entry + SIZEOF_ENTRY → m b = m' b)
    (hheader : HasHeader m entry x) : HasHeader m' entry x := by
  obtain ⟨hidx, hterm, hreq, hclt, htype, -⟩ := fields_congr hagree
  have hlen := log_entry_len_congr hagree
  exact ⟨hidx ▸ hheader.idx, hterm ▸ hheader.term, hreq ▸ hheader.req_id, hclt ▸ hheader.clt_id,
    htype ▸ hheader.type, hlen ▸ hheader.len⟩

/-- An entry depends only on the bytes of its own length. -/
theorem read_entry_congr
    (hagree : ∀ b, entry ≤ b → b < entry + log_entry_len m entry → m b = m' b) :
    read_entry m entry = read_entry m' entry := by
  have hmin : SIZEOF_ENTRY ≤ log_entry_len m entry := by
    rw [← read_entry_len]
    exact (read_entry m entry).le_len
  have hfixed : ∀ b, entry ≤ b → b < entry + SIZEOF_ENTRY → m b = m' b :=
    fun b hlow hhigh => hagree b hlow (by omega)
  obtain ⟨hidx, hterm, hreq, hclt, htype, hlen⟩ := fields_congr hfixed
  have hcid : dare_cid_t.read m (entry + DATA_OFFSET) = dare_cid_t.read m' (entry + DATA_OFFSET) :=
    dare_cid_t.read_congr fun b _ _ => hfixed b (by omega) (by simp only [SIZEOF_ENTRY, DATA_OFFSET] at *; omega)
  have hhead : loadU64 m (entry + DATA_OFFSET) = loadU64 m' (entry + DATA_OFFSET) := by
    unfold loadU64
    rw [load_congr fun b _ _ => hfixed b (by omega) (by simp only [SIZEOF_ENTRY, DATA_OFFSET] at *; omega)]
  have hdata : read_data m entry = read_data m' entry := by
    obtain hkind | hkind | hkind | hkind := type_cases (entry_type m entry)
    · rw [read_data_noop hkind, read_data_noop (htype ▸ hkind)]
    · rw [read_data_config hkind, read_data_config (htype ▸ hkind), hcid]
    · rw [read_data_head hkind, read_data_head (htype ▸ hkind), hhead]
    · have hbytes : load m (entry + CMD_OFFSET) (entry_cmd_len m entry).toNat =
          load m' (entry + CMD_OFFSET) (entry_cmd_len m entry).toNat := by
        apply load_congr
        intro b hlow hhigh
        apply hagree b (by omega)
        simp only [log_entry_len, hkind, SIZEOF_ENTRY, CMD_OFFSET, or_self, if_false] at *
        omega
      simp [read_data, ← htype, hkind, ← hlen, hbytes]
  simp only [read_entry, hidx, hterm, hreq, hclt, hdata]

end congr

section mixed

variable {m₁ m₂ m : Mem} {entry : Nat} {x : dare_log_entry_t}

/-- Two copies of a header have the same bytes in the fields that it consists of. -/
theorem hasHeader_mixed (hmix : Mixed m₁ m₂ m) (hfirst : HasHeader m₁ entry x)
    (hsecond : HasHeader m₂ entry x) : HasHeader m entry x := by
  have htype : entry_type m entry = entry_type m₁ entry :=
    hmix.byte (hfirst.type.trans hsecond.type.symm)
  have hlen : log_entry_len m entry = log_entry_len m₁ entry := by
    have htypes := hfirst.type.trans hsecond.type.symm
    have hlens := hfirst.len.trans hsecond.len.symm
    unfold log_entry_len at hlens ⊢
    rw [← htypes] at hlens
    rw [htype]
    split
    · rfl
    · rename_i hcmd
      rw [if_neg hcmd, if_neg hcmd] at hlens
      have hcmd_len : entry_cmd_len m₁ entry = entry_cmd_len m₂ entry :=
        UInt16.toNat_inj.mp (by omega)
      rw [entry_cmd_len, hmix.loadU16 hcmd_len]
      rfl
  refine ⟨?_, ?_, ?_, ?_, htype.trans hfirst.type, hlen.trans hfirst.len⟩
  · exact (hmix.loadU64 (hfirst.idx.trans hsecond.idx.symm)).trans hfirst.idx
  · exact (hmix.loadU64 (hfirst.term.trans hsecond.term.symm)).trans hfirst.term
  · exact (hmix.loadU64 (hfirst.req_id.trans hsecond.req_id.symm)).trans hfirst.req_id
  · exact (hmix.loadU16 (hfirst.clt_id.trans hsecond.clt_id.symm)).trans hfirst.clt_id

theorem read_data_mixed (hmix : Mixed m₁ m₂ m) (heq : read_data m₁ entry = read_data m₂ entry) :
    read_data m entry = read_data m₁ entry := by
  have htypes : entry_type m₁ entry = entry_type m₂ entry := by
    rw [← read_data_type, heq, read_data_type]
  have htype : entry_type m entry = entry_type m₁ entry := hmix.byte htypes
  obtain hkind | hkind | hkind | hkind := type_cases (entry_type m₁ entry)
  · rw [read_data_noop hkind, read_data_noop (htype ▸ hkind)]
  · rw [read_data_config hkind, read_data_config (htypes ▸ hkind), log_data.config.injEq] at heq
    rw [read_data_config hkind, read_data_config (htype ▸ hkind), dare_cid_t.read_mixed hmix heq]
  · rw [read_data_head hkind, read_data_head (htypes ▸ hkind), log_data.head.injEq] at heq
    rw [read_data_head hkind, read_data_head (htype ▸ hkind), hmix.loadU64 heq]
  · rw [read_data_cmd hkind, read_data_cmd (htypes ▸ hkind)] at heq
    have hbytes : load m₁ (entry + CMD_OFFSET) (entry_cmd_len m₁ entry).toNat =
        load m₂ (entry + CMD_OFFSET) (entry_cmd_len m₂ entry).toNat :=
      congrArg log_data.cmd_bytes heq
    have hlens : entry_cmd_len m₁ entry = entry_cmd_len m₂ entry := by
      have hlengths := congrArg List.length hbytes
      rw [load_length, load_length] at hlengths
      exact UInt16.toNat_inj.mp hlengths
    have hlen : entry_cmd_len m entry = entry_cmd_len m₁ entry := hmix.loadU16 hlens
    rw [← hlens] at hbytes
    simp [read_data, htype, hkind, hlen, hmix.load hbytes]

theorem read_entry_mixed (hmix : Mixed m₁ m₂ m) (hfirst : read_entry m₁ entry = x)
    (hsecond : read_entry m₂ entry = x) : read_entry m entry = x := by
  have hheader := hasHeader_mixed hmix (hasHeader_of_read_entry hfirst)
    (hasHeader_of_read_entry hsecond)
  have hdata : read_data m entry = x.data := by
    have hdata₁ : read_data m₁ entry = x.data := congrArg dare_log_entry_t.data hfirst
    have hdata₂ : read_data m₂ entry = x.data := congrArg dare_log_entry_t.data hsecond
    rw [read_data_mixed hmix (hdata₁.trans hdata₂.symm), hdata₁]
  cases x
  simp only [read_entry, dare_log_entry_t.mk.injEq]
  exact ⟨hheader.idx, hheader.term, hheader.req_id, hheader.clt_id, hdata⟩

end mixed

/-- Log entries as records of a circular buffer. -/
def entry_format : RecordFormat dare_log_entry_t where
  header := SIZEOF_ENTRY
  size := dare_log_entry_t.len
  Stored m entry x := read_entry m entry = x
  Header := HasHeader
  header_pos := by decide
  header_le_size := dare_log_entry_t.le_len
  stored_congr := by
    intro m m' entry x hagree hread
    have hlen : log_entry_len m entry = x.len := by rw [← read_entry_len, hread]
    rw [← hread, read_entry_congr fun b hlow hhigh => hagree b hlow (hlen ▸ hhigh)]
  header_congr := hasHeader_congr
  stored_header := hasHeader_of_read_entry
  stored_mixed := read_entry_mixed
  header_mixed := hasHeader_mixed

section write

variable {m : Mem} {entry : Nat}

@[simp] theorem header_bytes_length (idx term req_id : UInt64) (clt_id : UInt16) (type : UInt8) :
    (header_bytes idx term req_id clt_id type).length = 27 := by
  simp [header_bytes]

theorem fields_of_header {idx term req_id : UInt64} {clt_id : UInt16} {type : UInt8}
    (hload : load m entry 27 = header_bytes idx term req_id clt_id type) :
    entry_idx m entry = idx ∧ entry_term m entry = term ∧ entry_req_id m entry = req_id ∧
      entry_clt_id m entry = clt_id ∧ entry_type m entry = type := by
  have hsplit : load m entry 27 = load m entry 8 ++ (load m (entry + 8) 8 ++
      (load m (entry + 16) 8 ++ (load m (entry + 24) 2 ++ load m (entry + 26) 1))) := by
    rw [← load_append m (entry + 24) 2 1, ← load_append m (entry + 16) 8 3,
      ← load_append m (entry + 8) 8 11, ← load_append m entry 8 19]
  rw [hsplit, header_bytes] at hload
  obtain ⟨hidx, hload⟩ := List.append_inj hload (by simp)
  obtain ⟨hterm, hload⟩ := List.append_inj hload (by simp)
  obtain ⟨hreq, hload⟩ := List.append_inj hload (by simp)
  obtain ⟨hclt, htype⟩ := List.append_inj hload (by simp)
  refine ⟨loadU64_of_load hidx, loadU64_of_load hterm, loadU64_of_load hreq, loadU16_of_load hclt, ?_⟩
  simpa [load, entry_type] using htype

/-- The field `data.cmd.len`, for an entry that has a command. -/
def log_data.len_bytes : log_data → List UInt8
  | .cmd _ c => leBytes 2 c.len.toNat
  | _ => []

/-- The rest of the data and where it stands in the entry. -/
def log_data.body : log_data → Nat × List UInt8
  | .noop => (DATA_OFFSET, [])
  | .config cid => (DATA_OFFSET, cid.bytes)
  | .head offset => (DATA_OFFSET, leBytes 8 offset.toNat)
  | .cmd _ c => (CMD_OFFSET, c.cmd)

/-- Memory after the header of `x` is written, the command length included. -/
def put_header (m : Mem) (entry : Nat) (x : dare_log_entry_t) : Mem :=
  store (store m entry (header_bytes x.idx x.term x.req_id x.clt_id x.type))
    (entry + DATA_OFFSET) x.data.len_bytes

/-- Memory after all of `x` is written. -/
def put_entry (m : Mem) (entry : Nat) (x : dare_log_entry_t) : Mem :=
  store (put_header m entry x) (entry + x.data.body.1) x.data.body.2

theorem log_data.len_bytes_le (data : log_data) : data.len_bytes.length ≤ 2 := by
  cases data <;> simp [len_bytes]

theorem log_data.le_body (data : log_data) : DATA_OFFSET ≤ data.body.1 := by
  cases data <;> simp [body, DATA_OFFSET, CMD_OFFSET]

theorem log_data.body_le (x : dare_log_entry_t) : x.data.body.1 + x.data.body.2.length ≤ x.len := by
  unfold dare_log_entry_t.len
  cases x.data <;> simp [body, cmd_bytes, DATA_OFFSET, CMD_OFFSET, SIZEOF_ENTRY]

theorem put_header_outside {b : Nat} {x : dare_log_entry_t}
    (hout : b < entry ∨ entry + SIZEOF_ENTRY ≤ b) : put_header m entry x b = m b := by
  have hlen := x.data.len_bytes_le
  unfold SIZEOF_ENTRY at hout
  unfold put_header DATA_OFFSET
  rw [store_outside (by omega), store_outside (by rw [header_bytes_length]; omega)]

theorem put_entry_outside {b : Nat} {x : dare_log_entry_t}
    (hout : b < entry ∨ entry + x.len ≤ b) : put_entry m entry x b = m b := by
  have hmin := x.le_len
  have hbody := log_data.body_le x
  unfold put_entry
  rw [store_outside (by omega), put_header_outside (by omega)]

theorem load_put_header (m : Mem) (entry : Nat) (x : dare_log_entry_t) :
    load (put_header m entry x) entry 27 = header_bytes x.idx x.term x.req_id x.clt_id x.type := by
  unfold put_header DATA_OFFSET
  rw [load_store_outside (by omega), load_store (by simp)]

theorem load_put_entry (m : Mem) (entry : Nat) (x : dare_log_entry_t) :
    load (put_entry m entry x) entry 27 = header_bytes x.idx x.term x.req_id x.clt_id x.type := by
  have hbody := x.data.le_body
  unfold DATA_OFFSET at hbody
  unfold put_entry
  rw [load_store_outside (by omega), load_put_header]

theorem sm_cmd_t.len_toNat (c : sm_cmd_t) : c.len.toNat = c.cmd.length := by
  have hlt := c.len_lt
  simp only [sm_cmd_t.len, UInt16.toNat_ofNat']
  omega

/-- Command length of an entry that has a command. -/
theorem cmd_len_put_header {x : dare_log_entry_t} {type : cmd_type} {c : sm_cmd_t}
    (hdata : x.data = .cmd type c) : entry_cmd_len (put_header m entry x) entry = c.len := by
  apply loadU16_of_load
  simp only [put_header, hdata, log_data.len_bytes]
  exact load_store (by simp)

theorem cmd_len_put_entry {x : dare_log_entry_t} {type : cmd_type} {c : sm_cmd_t}
    (hdata : x.data = .cmd type c) : entry_cmd_len (put_entry m entry x) entry = c.len := by
  apply loadU16_of_load
  simp only [put_entry, put_header, hdata, log_data.len_bytes, log_data.body]
  rw [load_store_outside (by unfold DATA_OFFSET CMD_OFFSET; omega)]
  exact load_store (by simp)

theorem log_entry_len_of_fields {x : dare_log_entry_t} (htype : entry_type m entry = x.type)
    (hlen : ∀ type c, x.data = .cmd type c → entry_cmd_len m entry = c.len) :
    log_entry_len m entry = x.len := by
  unfold log_entry_len dare_log_entry_t.len
  unfold dare_log_entry_t.type at htype
  cases hdata : x.data with
  | noop => simp [htype, hdata, log_data.type, log_data.cmd_bytes]
  | config cid => simp [htype, hdata, log_data.type, log_data.cmd_bytes]
  | head offset => simp [htype, hdata, log_data.type, log_data.cmd_bytes]
  | cmd type c =>
    simp only [htype, hdata, log_data.type, log_data.cmd_bytes, type.property, hlen type c hdata,
      sm_cmd_t.len_toNat, or_self, if_false]

theorem hasHeader_put_header (m : Mem) (entry : Nat) (x : dare_log_entry_t) : HasHeader (put_header m entry x) entry x := by
  obtain ⟨hidx, hterm, hreq, hclt, htype⟩ := fields_of_header (load_put_header m entry x)
  exact ⟨hidx, hterm, hreq, hclt, htype,
    log_entry_len_of_fields htype fun _ _ hdata => cmd_len_put_header hdata⟩

theorem read_put_entry (m : Mem) (entry : Nat) (x : dare_log_entry_t) : read_entry (put_entry m entry x) entry = x := by
  obtain ⟨hidx, hterm, hreq, hclt, htype⟩ := fields_of_header (load_put_entry m entry x)
  have hdata : read_data (put_entry m entry x) entry = x.data := by
    unfold dare_log_entry_t.type at htype
    cases hkind : x.data with
    | noop => exact read_data_noop (by rw [htype, hkind]; rfl)
    | config cid =>
      rw [read_data_config (by rw [htype, hkind]; rfl), dare_cid_t.read_of_load]
      simp only [put_entry, hkind, log_data.body]
      exact load_store (by simp)
    | head offset =>
      rw [read_data_head (by rw [htype, hkind]; rfl), loadU64_of_load]
      simp only [put_entry, hkind, log_data.body]
      exact load_store (by simp)
    | cmd type c =>
      have htype' : entry_type (put_entry m entry x) entry = type.val := by rw [htype, hkind]; rfl
      have hbytes : load (put_entry m entry x) (entry + CMD_OFFSET) c.cmd.length = c.cmd := by
        simp only [put_entry, hkind, log_data.body]
        exact load_store rfl
      rw [read_data_cmd (htype' ▸ type.property)]
      congr 1
      · exact Subtype.ext htype'
      · simp only [cmd_len_put_entry hkind, sm_cmd_t.len_toNat, hbytes]
  cases x
  simp only [read_entry, dare_log_entry_t.mk.injEq]
  exact ⟨hidx, hterm, hreq, hclt, hdata⟩

end write
end dare.log
