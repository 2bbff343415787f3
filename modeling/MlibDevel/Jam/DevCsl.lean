import MlibDevel.Jam.CslPayload
import MlibDevel.Jam.TapcpOpen

/-!
# Finding a device (`casper_devcsl.c`)

A device of the design is found by its name or by its type code.  Both searches go through the
compact sorted list that `cit2csl.py` made of `core_info.tab`, and both take the entry's nine
payload bytes apart in the same way.

The script marks a read-only device in the low bit of its offset.  Neither search takes the mark
off the address it returns, so a read-only device is found one byte above its place
(`located_iff`).
-/

namespace MlibDevel.Jam

open Lib

/-! ## Devices of a table -/

/-- A line of `core_info.tab`, with the mode as it is written there. -/
structure Device where
  dev : List UInt8
  mode : List UInt8
  offset : Int
  length : Int
  typecode : Int
  deriving DecidableEq

/-- Mode `1` is read-only. -/
def Device.ReadOnly (d : Device) : Prop := d.mode = [49]

instance (d : Device) : Decidable d.ReadOnly := inferInstanceAs (Decidable (d.mode = [49]))

/-- What the reading loop of `cit2csl.py` makes of a line. -/
def Device.line (d : Device) : Line where
  dev := d.dev
  offset := if d.mode = [49] then orOne d.offset else d.offset
  length := d.length
  typecode := d.typecode

/-- The fields of a line of text. -/
def parseDevice (line : List UInt8) : Option Device :=
  match splitWords line with
  | dev :: mode :: offset :: length :: rest => do
    let offset ← pyIntHex offset
    let length ← pyIntHex length
    let typecode ← parseTypecode rest
    return { dev, mode, offset, length, typecode }
  | _ => none

/-- A round of the reading loop takes the fields and marks the offset. -/
theorem parseLine_eq (line : List UInt8) : parseLine line = (parseDevice line).map Device.line := by
  unfold parseLine parseDevice
  rcases splitWords line with _ | ⟨dev, _ | ⟨mode, _ | ⟨offset, _ | ⟨length, rest⟩⟩⟩⟩
  · rfl
  · rfl
  · rfl
  · rfl
  · dsimp only
    cases pyIntHex offset with
    | none => rfl
    | some offset =>
      cases pyIntHex length with
      | none => rfl
      | some length => cases parseTypecode rest <;> rfl

/-- The lines of a table are those of its devices. -/
theorem parseTable_eq (text : List UInt8) :
    parseTable text = ((readLines text).mapM parseDevice).map (List.map Device.line) := by
  rw [parseTable]
  induction readLines text with
  | nil => rfl
  | cons line lines ih =>
    rw [List.mapM_cons, List.mapM_cons, ih, parseLine_eq]
    cases parseDevice line with
    | none => rfl
    | some d => cases lines.mapM parseDevice <;> rfl

/-- A device whose place is a range of words and whose line the script can encode. -/
structure Device.Placed (d : Device) : Prop where
  encodable : d.line.Encodable
  offset_aligned : d.offset % 4 = 0
  length_aligned : d.length % 4 = 0

/-- The address of a device: the base address and its offset. -/
def Device.addr (d : Device) : UInt32 := fpgaBaseaddr + UInt32.ofNat d.offset.toNat

/-- The record of a line. -/
def Line.info (l : Line) : CasperDevInfo where
  offset := UInt32.ofNat l.offset.toNat
  length := UInt32.ofNat l.length.toNat
  typecode := UInt8.ofNat l.typecode.toNat

/-- A word of a payload is read as it was packed. -/
theorem payloadWord_be32 (n : Nat) (rest : List UInt8) :
    payloadWord (be32 n ++ rest) = some (UInt32.ofNat n, rest) := by
  show payloadWord (_ :: _ :: _ :: _ :: rest) = _
  rw [payloadWord, ← shift_four_bytes 0]
  simp only [shift_or_byte]
  congr 2
  apply UInt32.toNat_inj.mp
  simp only [UInt32.toNat_ofNat', UInt8.toNat_ofNat']
  simp
  omega

/-- The payload of a line is read as its record. -/
theorem devInfo_payload (l : Line) (rest : List UInt8) :
    devInfo (l.payload ++ rest) = some l.info := by
  rw [Line.payload, List.append_assoc, List.append_assoc, devInfo, payloadWord_be32]
  dsimp only
  rw [payloadWord_be32]
  rfl

/-! ## The search by type code -/

variable (env : Env)

/--
`casper_find_dev_by_typecode`: the address and the record of the next device of a type, as for
`casperFindDev`.  The device's name is left in `csl_key`.
-/
def casperFindDevByTypecode (s : CslIter) (typecode : UInt8) (first : Bool) :
    Option (CslIter × UInt32 × Option CasperDevInfo) :=
  match env.coreInfo with
  | c₀ :: c₁ :: _ =>
    if c₀ = 0 ∨ c₁ = 0 then some (s, 0, none)
    else
      let csl := if first then some env.coreInfo else none
      match cslFindByPayload s csl 8 typecode with
      | none => none
      | some ⟨s, none, _⟩ => some (s, 0, none)
      | some ⟨s, some payload, _⟩ =>
        match devInfo payload with
        | none => none
        | some info => some (s, info.offset + fpgaBaseaddr, some info)
  | _ => none

theorem casperFindDevByTypecode_length {s s' : CslIter} {typecode : UInt8} {addr : UInt32}
    {info : CasperDevInfo}
    (h : casperFindDevByTypecode env s typecode false = some (s', addr, some info)) :
    s'.pcsl.length < s.pcsl.length := by
  unfold casperFindDevByTypecode at h
  split at h
  · split at h
    · simp at h
    · dsimp only at h
      split at h
      · simp at h
      · simp at h
      · next s₁ payload reads hfind =>
        split at h
        · simp at h
        · simp only [Option.some.injEq, Prod.mk.injEq] at h
          rw [← h.1]
          exact cslFindByPayload_none_length hfind rfl
  · simp at h

/-- What a client gets from a call that finds a device: its name, address and record. -/
structure DevFound where
  key : List UInt8
  addr : UInt32
  info : CasperDevInfo
  deriving DecidableEq

/-- A search goes on until no device is found. -/
def typecodeRest (s : CslIter) (typecode : UInt8) : Option (List DevFound) :=
  match _h : casperFindDevByTypecode env s typecode false with
  | none => none
  | some (_, _, none) => some []
  | some (s', addr, some info) =>
    (typecodeRest s' typecode).map (⟨cstr s'.key, addr, info⟩ :: ·)
termination_by s.pcsl.length
decreasing_by exact casperFindDevByTypecode_length env _h

/-- A whole search for the devices of a type. -/
def typecodeSearch (s : CslIter) (typecode : UInt8) : Option (List DevFound) :=
  match casperFindDevByTypecode env s typecode true with
  | none => none
  | some (_, _, none) => some []
  | some (s', addr, some info) =>
    (typecodeRest env s' typecode).map (⟨cstr s'.key, addr, info⟩ :: ·)

/-! ## Both searches -/

/-- Every table of encodable lines is encoded. -/
theorem encodeCsl_isSome {lines : List Line} (hok : ∀ l ∈ lines, l.Encodable) :
    ∃ csl, encodeCsl lines = some csl := by
  obtain ⟨out, hout⟩ := encodeLoop_isSome (fun l hl => hok l (mem_sortLines.mp hl)) [] []
  exact ⟨out ++ [0, 0], by simp [encodeCsl, hout]⟩

/-- The list of a table with a device in it starts with two bytes that are not zero. -/
theorem encodeCsl_header {lines : List Line} {csl : List UInt8} (hok : ∀ l ∈ lines, l.Encodable)
    (hcsl : encodeCsl lines = some csl) (hne : lines ≠ []) :
    ∃ c₀ c₁ rest, csl = c₀ :: c₁ :: rest ∧ ¬ (c₀ = 0 ∨ c₁ = 0) := by
  obtain ⟨l, hl⟩ := List.exists_mem_of_ne_nil _ hne
  have hmem : l ∈ sortLines lines := mem_sortLines.mpr hl
  cases hs : sortLines lines with
  | nil => rw [hs] at hmem; simp at hmem
  | cons l₀ ls =>
    have h₀ := hok l₀ (mem_sortLines.mp (by rw [hs]; exact List.mem_cons_self))
    have hpos := List.length_pos_iff.mpr h₀.name_ne
    have hle := h₀.name_le
    rw [encodeCsl_eq_some hcsl, hs, List.map_cons, cslBytes, entryBody]
    refine ⟨_, _, _, rfl, ?_⟩
    rintro (h | h)
    · exact absurd h (by decide)
    · have hz := congrArg UInt8.toNat h
      simp [Line.entry] at hz
      omega

/-- The lines of a sorted table up to the first one that repeats the name before it. -/
def firstLines (lines : List Line) : List Line :=
  (sortLines lines).take (distinctRun [] ((sortLines lines).map Line.entry)).length

theorem firstLines_entry (lines : List Line) :
    (firstLines lines).map Line.entry = distinctRun [] ((sortLines lines).map Line.entry) := by
  obtain ⟨rest, hrest⟩ := distinctRun_isPrefix [] ((sortLines lines).map Line.entry)
  rw [firstLines, List.map_take]
  nth_rewrite 2 [hrest]
  exact List.take_left

/-- Without repetitions the first lines are all of them. -/
theorem firstLines_eq_iff {lines : List Line} (hne : ∀ l ∈ lines, l.dev ≠ []) :
    firstLines lines = sortLines lines ↔ (lines.map Line.dev).Nodup := by
  have hperm : ((sortLines lines).map Line.dev).Perm (lines.map Line.dev) :=
    (List.perm_insertionSort (· ≤ ·) lines).map Line.dev
  have hnames : ((sortLines lines).map Line.entry).map Entry.name =
      (sortLines lines).map Line.dev := by
    rw [List.map_map]
    rfl
  constructor
  · intro heq
    have hsort : ([] :: ((sortLines lines).map Line.entry).map Entry.name).Pairwise (· ≤ ·) := by
      refine List.pairwise_cons.mpr ⟨fun _ _ => not_lt.mp (List.not_lt_nil _), ?_⟩
      rw [hnames]
      exact List.pairwise_map.mpr
        ((List.pairwise_insertionSort (· ≤ ·) lines).imp Line.dev_le_of_le)
    have hstrict := distinctRun_strict hsort
    rw [← firstLines_entry, heq, List.pairwise_map] at hstrict
    exact hperm.nodup_iff.mp (List.pairwise_map.mpr (hstrict.imp ne_of_lt))
  · intro hnd
    have hnd' : ([] :: ((sortLines lines).map Line.entry).map Entry.name).Nodup := by
      rw [hnames]
      refine List.nodup_cons.mpr ⟨fun hmem => ?_, hperm.nodup_iff.mpr hnd⟩
      obtain ⟨l, hl, hnil⟩ := List.mem_map.mp hmem
      exact hne l (mem_sortLines.mp hl) hnil
    rw [firstLines, distinctRun_of_nodup hnd', List.length_map, List.take_length]

theorem mem_of_mem_firstLines {lines : List Line} {l : Line} (h : l ∈ firstLines lines) :
    l ∈ lines :=
  mem_sortLines.mp (List.mem_of_mem_take h)

/-- A table as an encoded list, with the first lines for its first entries. -/
theorem encodeCsl_firstLines {lines : List Line} {csl : List UInt8}
    (hok : ∀ l ∈ lines, l.Encodable) (hcsl : encodeCsl lines = some csl) :
    ∃ l : CslList, csl = l.bytes ∧ (lines ≠ [] → l.plLen = UInt8.ofNat payloadLength) ∧
      l.first = (firstLines lines).map Line.entry := by
  obtain ⟨l, hbytes, hentries, hpl⟩ := encodeCsl_cslList hok
  rw [hcsl] at hbytes
  refine ⟨l, Option.some.inj hbytes, fun hne => ?_, ?_⟩
  · rw [hpl, if_neg hne]
  · rw [firstLines_entry, CslList.first, hentries]

/-- What both searches answer for a line. -/
def Line.found (l : Line) : DevFound := ⟨l.dev, l.info.offset + fpgaBaseaddr, l.info⟩

/-- A device in front of the first repetition is found by its name. -/
theorem casperFindDev_line {lines : List Line} (hok : ∀ l ∈ lines, l.Encodable)
    (hcsl : encodeCsl lines = some env.coreInfo) {l : Line} (hl : l ∈ firstLines lines) :
    casperFindDev env l.dev = some (l.found.addr, some l.found.info) := by
  have hne : lines ≠ [] := List.ne_nil_of_mem (mem_of_mem_firstLines hl)
  obtain ⟨csl, hcore, hpl, hfirst⟩ := encodeCsl_firstLines hok hcsl
  replace hpl := hpl hne
  obtain ⟨head, z, hbytes, -, -⟩ := csl.bytes_first
  have hmem : l.entry ∈ csl.first := by
    rw [hfirst]
    exact List.mem_map_of_mem hl
  have hstrict : csl.first.Pairwise fun a b => a.name < b.name :=
    List.pairwise_map.mp (List.pairwise_cons.mp csl.first_strict).2
  have hnodup : (csl.first.map Entry.name).Nodup := List.pairwise_map.mpr (hstrict.imp ne_of_lt)
  obtain ⟨rest, hlookup, -⟩ := lookup_eq_some (z := head :: 0 :: z) hmem rfl hnodup
  have hstream : env.coreInfo = cslBytes csl.first ++ head :: 0 :: z := by
    rw [hcore, hbytes, hpl]
    cases hes : csl.first with
    | nil => rw [hes] at hmem; simp at hmem
    | cons e es => rfl
  have hfind : cslFindKey (some env.coreInfo) l.dev = some (some (l.payload ++ rest)) := by
    have hfits : ∀ e ∈ csl.first, e.Fits (UInt8.ofNat payloadLength) := fun e he =>
      hpl ▸ (csl.fits e (mem_of_mem_distinctRun he)).1
    rw [hstream, ← show lookup l.dev _ _ = some (l.payload ++ rest) from hlookup]
    exact cslFindKey_cslBytes (csl.fits _ (mem_of_mem_distinctRun hmem)).2 hfits
      (fun e he => csl.named e (mem_of_mem_distinctRun he)) hstrict
      (Or.inl (List.mem_map_of_mem hmem))
  obtain ⟨c₀, c₁, tail, hhead, hnz⟩ := encodeCsl_header hok hcsl hne
  rw [casperFindDev, hhead]
  dsimp only
  rw [if_neg hnz, ← hhead, hfind]
  dsimp only
  rw [devInfo_payload]
  rfl

/-- The lines of a type in front of the first repetition. -/
def ofTypecode (typecode : UInt8) (lines : List Line) : List Line :=
  (firstLines lines).filter fun l => l.payload[8]? = some typecode

section

variable {env} {c₀ c₁ : UInt8} {tail : List UInt8}

/-- Behind the check of the first two bytes, a call is a search for the payload byte 8. -/
theorem casperFindDevByTypecode_eq (hhead : env.coreInfo = c₀ :: c₁ :: tail)
    (hnz : ¬ (c₀ = 0 ∨ c₁ = 0)) (s : CslIter) (typecode : UInt8) (first : Bool) :
    casperFindDevByTypecode env s typecode first =
      (cslFindByPayload s (if first then some env.coreInfo else none) 8 typecode).bind fun r =>
        match r.payload with
        | none => some (r.iter, 0, none)
        | some payload =>
          (devInfo payload).map fun info => (r.iter, info.offset + fpgaBaseaddr, some info) := by
  rw [casperFindDevByTypecode, hhead]
  dsimp only
  rw [if_neg hnz]
  cases hf : cslFindByPayload s (if first then some (c₀ :: c₁ :: tail) else none) 8 typecode with
  | none => rfl
  | some r =>
    obtain ⟨s', p, reads⟩ := r
    cases p with
    | none => rfl
    | some p =>
      dsimp only [Option.bind_some]
      cases devInfo p <;> rfl

theorem typecodeRest_error {s : CslIter} {typecode : UInt8}
    (h : casperFindDevByTypecode env s typecode false = none) :
    typecodeRest env s typecode = none := by
  rw [typecodeRest]
  split <;> simp_all

theorem typecodeRest_end {s s' : CslIter} {typecode : UInt8} {addr : UInt32}
    (h : casperFindDevByTypecode env s typecode false = some (s', addr, none)) :
    typecodeRest env s typecode = some [] := by
  rw [typecodeRest]
  split <;> simp_all

theorem typecodeRest_found {s s' : CslIter} {typecode : UInt8} {addr : UInt32}
    {info : CasperDevInfo}
    (h : casperFindDevByTypecode env s typecode false = some (s', addr, some info)) :
    typecodeRest env s typecode =
      (typecodeRest env s' typecode).map (⟨cstr s'.key, addr, info⟩ :: ·) := by
  rw [typecodeRest]
  split <;> simp_all

/-- Starting a search is `csl_iter_init` and then going on with it. -/
theorem typecodeSearch_eq (hhead : env.coreInfo = c₀ :: c₁ :: tail) (hnz : ¬ (c₀ = 0 ∨ c₁ = 0))
    {s s' : CslIter} (hinit : cslIterInit s env.coreInfo = some s') (typecode : UInt8) :
    typecodeSearch env s typecode = typecodeRest env s' typecode := by
  have hcall : casperFindDevByTypecode env s typecode true =
      casperFindDevByTypecode env s' typecode false := by
    rw [casperFindDevByTypecode_eq hhead hnz, casperFindDevByTypecode_eq hhead hnz, if_pos rfl,
      if_neg (by simp), cslFindByPayload_some, hinit, Option.bind_some]
  rw [typecodeSearch, hcall]
  cases hf : casperFindDevByTypecode env s' typecode false with
  | none => rw [typecodeRest_error hf]
  | some r =>
    obtain ⟨s'', addr, info⟩ := r
    cases info with
    | none => rw [typecodeRest_end hf]
    | some info => rw [typecodeRest_found hf]

/-- From the entries `es` on, a search finds those of the type, one with every call. -/
theorem typecodeRest_open (hhead : env.coreInfo = c₀ :: c₁ :: tail) (hnz : ¬ (c₀ = 0 ∨ c₁ = 0))
    (typecode head : UInt8) (z : List UInt8) : ∀ (ls : List Line) {es : List Entry} {s : CslIter},
    IterOpen (head :: 0 :: z) es s → s.plLen = UInt8.ofNat payloadLength →
    es.filter (fun e => e.payload[8]? = some typecode) = ls.map Line.entry →
    typecodeRest env s typecode = some (ls.map Line.found)
  | [], es, s, hs, hpl, hfilter => by
    obtain ⟨s', reads, hfind⟩ := findPayload_nothing 8 typecode hs (by rw [hpl]; decide) hfilter
    have hcall := casperFindDevByTypecode_eq hhead hnz s typecode false
    rw [if_neg (by simp), cslFindByPayload_none, if_neg (by rw [hpl]; decide), hfind] at hcall
    exact typecodeRest_end hcall
  | l :: ls, es, s, hs, hpl, hfilter => by
    obtain ⟨s', post, reads, hfind, hpl', hkey, hopen, hmore⟩ :=
      findPayload_first 8 typecode (by simp) hs (by rw [hpl]; decide) hfilter
    have hcall := casperFindDevByTypecode_eq hhead hnz s typecode false
    rw [if_neg (by simp), cslFindByPayload_none, if_neg (by rw [hpl]; decide), hfind] at hcall
    have hinfo : devInfo (payloadPtr (head :: 0 :: z) l.entry post) = some l.info :=
      devInfo_payload l _
    simp only [Option.bind_some, hinfo, Option.map_some] at hcall
    have ih := typecodeRest_open hhead hnz typecode head z ls hopen (hpl'.trans hpl) hmore
    rw [typecodeRest_found hcall, ih, hkey]
    rfl

/-- The devices of a type are found by it, in the order of the list. -/
theorem typecodeSearch_lines {lines : List Line} (hok : ∀ l ∈ lines, l.Encodable)
    (hcsl : encodeCsl lines = some env.coreInfo) (hne : lines ≠ []) (s : CslIter)
    (typecode : UInt8) :
    typecodeSearch env s typecode = some ((ofTypecode typecode lines).map Line.found) := by
  obtain ⟨c₀, c₁, tail, hhead, hnz⟩ := encodeCsl_header hok hcsl hne
  obtain ⟨csl, hcore, hplen, hfirst⟩ := encodeCsl_firstLines hok hcsl
  obtain ⟨s', head, z, hinit, hpl, hopen, -⟩ := cslIterInit_open s csl
  rw [← hcore] at hinit
  rw [hplen hne] at hpl
  rw [hfirst] at hopen
  rw [typecodeSearch_eq hhead hnz hinit]
  refine typecodeRest_open hhead hnz typecode head z _ hopen hpl ?_
  rw [ofTypecode, List.filter_map]
  rfl

end

/-! ## Where a device is found -/

/--
Both searches find a device at its address, with the offset, length and type of its line in the
record.
-/
def Device.Located (d : Device) : Prop :=
  casperFindDev env d.dev = some (d.addr, some d.line.info) ∧
  ∀ s, ∃ found, typecodeSearch env s d.line.info.typecode = some found ∧
    ⟨d.dev, d.addr, d.line.info⟩ ∈ found

/-- The mark moves the address of a read-only device. -/
theorem Device.Placed.addr_iff {d : Device} (h : d.Placed) :
    d.line.found.addr = d.addr ↔ ¬ d.ReadOnly := by
  have hrange := h.encodable.offset_range
  have halign := h.offset_aligned
  show d.line.info.offset + fpgaBaseaddr = d.addr ↔ _
  rw [Device.addr, UInt32.add_comm, UInt32.add_right_inj]
  show UInt32.ofNat (if d.mode = [49] then orOne d.offset else d.offset).toNat = _ ↔ _
  by_cases hro : d.mode = [49]
  · have hodd : orOne d.offset = d.offset + 1 := if_pos (by omega)
    have hlt : d.offset + 1 < 2 ^ 32 ∧ 0 ≤ d.offset + 1 := by
      have : d.line.offset = orOne d.offset := if_pos hro
      omega
    rw [if_pos hro, hodd]
    refine iff_of_false (fun heq => ?_) (not_not.mpr hro)
    have hnat := congrArg UInt32.toNat heq
    rw [UInt32.toNat_ofNat', UInt32.toNat_ofNat'] at hnat
    omega
  · rw [if_neg hro]
    exact iff_of_true rfl hro

/-- A line is what its name and record say. -/
theorem Line.Encodable.eq_of_info {l m : Line} (hl : l.Encodable) (hm : m.Encodable)
    (hdev : l.dev = m.dev) (hinfo : l.info = m.info) : l = m := by
  obtain ⟨-, -, -, ho, hn, ht⟩ := hl
  obtain ⟨-, -, -, ho', hn', ht'⟩ := hm
  have hoffset := congrArg (fun i => i.offset.toNat) hinfo
  have hlength := congrArg (fun i => i.length.toNat) hinfo
  have htypecode := congrArg (fun i => i.typecode.toNat) hinfo
  simp only [Line.info, UInt32.toNat_ofNat', UInt8.toNat_ofNat'] at hoffset hlength htypecode
  have h₁ : l.offset = m.offset := by omega
  have h₂ : l.length = m.length := by omega
  have h₃ : l.typecode = m.typecode := by omega
  cases l
  cases m
  simp_all

/--
**Where a device is found.**

Whatever the statics of the iterator hold, both searches find a device of a table at its address
and with its record if and only if it is not read-only and its line stands in front of the first
one that repeats a name.  The list is what `cit2csl.py` makes of any text with these devices.
-/
theorem located_iff {devs : List Device} (hplaced : ∀ d ∈ devs, d.Placed) :
    ∃ csl, encodeCsl (devs.map Device.line) = some csl ∧
      (∀ text, (readLines text).mapM parseDevice = some devs →
        cit2csl text = (packH csl.length).map (· ++ csl)) ∧
      ∀ env : Env, env.coreInfo = csl → ∀ d ∈ devs,
        (d.Located env ↔ ¬ d.ReadOnly ∧ d.line ∈ firstLines (devs.map Device.line)) := by
  have hok : ∀ l ∈ devs.map Device.line, l.Encodable := by
    intro l hl
    obtain ⟨d, hd, rfl⟩ := List.mem_map.mp hl
    exact (hplaced d hd).encodable
  obtain ⟨csl, hcsl⟩ := encodeCsl_isSome hok
  refine ⟨csl, hcsl, fun text htext => ?_, fun env henv d hd => ?_⟩
  · exact cit2csl_eq (by rw [parseTable_eq, htext, Option.map_some]) hcsl
  subst henv
  have hmem : d.line ∈ devs.map Device.line := List.mem_map_of_mem hd
  have hsearch := fun s => typecodeSearch_lines hok hcsl (List.ne_nil_of_mem hmem) s
    d.line.info.typecode
  constructor
  · rintro ⟨-, htype⟩
    obtain ⟨found, hfound, hin⟩ := htype CslIter.zero
    rw [hsearch] at hfound
    rw [← Option.some.inj hfound] at hin
    obtain ⟨l, hl, heq⟩ := List.mem_map.mp hin
    have hfirst := List.mem_of_mem_filter hl
    have hline : l = d.line := (hok l (mem_of_mem_firstLines hfirst)).eq_of_info (hok _ hmem)
      (congrArg DevFound.key heq) (congrArg DevFound.info heq)
    subst hline
    exact ⟨(hplaced d hd).addr_iff.mp (congrArg DevFound.addr heq), hfirst⟩
  · rintro ⟨hro, hfirst⟩
    have haddr := (hplaced d hd).addr_iff.mpr hro
    constructor
    · rw [← haddr]
      exact casperFindDev_line env hok hcsl hfirst
    · intro s
      refine ⟨_, hsearch s, List.mem_map.mpr ⟨d.line, ?_, ?_⟩⟩
      · exact List.mem_filter.mpr ⟨hfirst, by simp [Line.payload, Line.info, be32]⟩
      · rw [← haddr]
        rfl

/-- A gain that can be read and written, and a counter that can be read only. -/
def gainAndCount : List Device :=
  [⟨ascii "eq_gain", ascii "3", 0x100, 0x100, 4⟩, ⟨ascii "eq_count", ascii "1", 0x200, 4, 0⟩]

theorem gainAndCount_placed : ∀ d ∈ gainAndCount, d.Placed := by
  have hascii : ∀ {name : List UInt8}, name.all (fun c => c ≠ 0 && c < 128) = true →
      ∀ c ∈ name, c ≠ 0 ∧ c < 128 := by
    intro name h
    simpa using h
  simp only [gainAndCount, List.mem_cons, List.not_mem_nil, or_false]
  rintro d (rfl | rfl)
  · exact ⟨⟨by decide, by decide, hascii (by decide), by decide, by decide, by decide⟩,
      by decide, by decide⟩
  · exact ⟨⟨by decide, by decide, hascii (by decide), by decide, by decide, by decide⟩,
      by decide, by decide⟩

/-- Their list. -/
def gainAndCountEnv : Env :=
  { Env.zero with
    coreInfo := [9, 8, 101, 113, 95, 99, 111, 117, 110, 116, 0, 0, 2, 1, 0, 0, 0, 4, 0,
      3, 4, 103, 97, 105, 110, 0, 0, 1, 0, 0, 0, 1, 0, 4, 0, 0] }

theorem located_gain :
    (⟨ascii "eq_gain", ascii "3", 0x100, 0x100, 4⟩ : Device).Located gainAndCountEnv := by
  obtain ⟨csl, hcsl, -, hlocated⟩ := located_iff gainAndCount_placed
  have henv : encodeCsl (gainAndCount.map Device.line) = some gainAndCountEnv.coreInfo := by
    decide +kernel
  rw [hcsl] at henv
  refine (hlocated gainAndCountEnv (Option.some.inj henv).symm _ List.mem_cons_self).mpr ⟨?_, ?_⟩
  · decide
  · decide +kernel

/-- The counter is found at `44A00201`, which is not its address. -/
theorem count_not_located :
    encodeCsl (gainAndCount.map Device.line) = some gainAndCountEnv.coreInfo ∧
    (casperFindDev gainAndCountEnv (ascii "eq_count")).map Prod.fst = some 0x44A00201 ∧
    ¬ (⟨ascii "eq_count", ascii "1", 0x200, 4, 0⟩ : Device).Located gainAndCountEnv := by
  have hfind : (casperFindDev gainAndCountEnv (ascii "eq_count")).map Prod.fst =
      some 0x44A00201 := by
    decide +kernel
  refine ⟨by decide +kernel, hfind, ?_⟩
  rintro ⟨hname, -⟩
  rw [show ascii "eq_count" = Device.dev ⟨ascii "eq_count", ascii "1", 0x200, 4, 0⟩ from rfl,
    hname] at hfind
  revert hfind
  decide +kernel

end MlibDevel.Jam
