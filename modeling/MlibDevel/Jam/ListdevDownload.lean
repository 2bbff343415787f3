import MlibDevel.Jam.Listdev
import MlibDevel.Jam.ReadBounds
import MlibDevel.Jam.TapcpDownload

/-!
# Reading the device list over the network

From the table of the devices to the client: `cit2csl.py` encodes the table, `/listdev` decodes it
and makes the text, the TFTP server sends it, and the client reads it back.
-/

namespace MlibDevel.Jam

open Lib

/-! ## `/listdev` -/

variable (env : Env)

theorem readLinesOf_ret {more : Tapcp → Bool} {newLine : Tapcp → Option (Tapcp × Bool)} {n : Nat}
    {s s' : Tapcp} {out : ReadOut} (h : readLinesOf more newLine s n = some (s', out)) :
    out.ret = out.buf.length := by
  obtain ⟨⟨t, bytes⟩, -, hout⟩ := Option.map_eq_some_iff.mp h
  cases hout
  rfl

/-- A call returns what it stores, and leaves the callback. -/
theorem readListdevAscii_call {s s' : Tapcp} {n : Nat} {out : ReadOut}
    (hcall : readListdevAscii env s n = some (s', out)) :
    out.ret = out.buf.length ∧ s'.readFn = s.readFn := by
  unfold readListdevAscii at hcall
  split at hcall
  · split at hcall
    · cases hcall
    · exact ⟨readLinesOf_ret hcall, (readLinesOf_kept (fun _ _ _ => listdevNewLine_kept) hcall).1⟩
  · exact ⟨readLinesOf_ret hcall, (readLinesOf_kept (fun _ _ _ => listdevNewLine_kept) hcall).1⟩

/-- The text of the devices in front of the first repeated name -/
def listdevText (lines : List Line) : List UInt8 := ((firstLines lines).map Line.text).flatten

/-- **The device list is a file.** -/
theorem listdev_fileOf {lines : List Line} (hok : ∀ l ∈ lines, l.Encodable)
    (hnl : ∀ l ∈ lines, newline ∉ l.dev) (hcsl : encodeCsl lines = some env.coreInfo) {s : Tapcp}
    (hread : s.readFn = .listdevAscii) (hlidx : s.lidx = -1) :
    ∃ blocks, FileOf (casperTftpContext env) () (some s) blocks
      ∧ blocks.flatten = listdevText lines := by
  have hat : ∃ t, some s = some t ∧ t.readFn = .listdevAscii
      ∧ ListdevAt ((firstLines lines).map Line.text) t 0 := ⟨s, rfl, hread, .inl ⟨hlidx, rfl⟩⟩
  refine fileOf_of_serves (listdevText lines) (fun app pos => ∃ t, app = some t
    ∧ t.readFn = .listdevAscii ∧ ListdevAt ((firstLines lines).map Line.text) t pos) ?_ hat
    (Nat.zero_le _)
  rintro _ pos ⟨t, rfl, hfn, ht⟩
  obtain ⟨t', hblock, ht'⟩ := listdev_servesAll env hok hnl hcsl ht tftpMaxPayloadSize (by decide)
  obtain ⟨⟨t₁, out⟩, hcall, hout⟩ := Option.map_eq_some_iff.mp hblock
  obtain ⟨rfl, hbuf⟩ := Prod.mk.inj hout
  obtain ⟨hret, hfn'⟩ := readListdevAscii_call env hcall
  refine ⟨some t₁, out.buf, ?_, hbuf, fun hle => ⟨t₁, rfl, hfn'.trans hfn, ht' hle⟩⟩
  simp only [casperTftpContext, Option.bind_some, callRead, hfn, hcall, hret]

/-- Opening the file of the list. -/
theorem tftpOpen_listdev (s : Tapcp) {mode : List UInt8} (hmode : deref mode ≠ 0x6f) :
    ∃ s₁, tftpOpen env s (ascii "/listdev") mode false = some (s₁, true)
      ∧ s₁.readFn = .listdevAscii ∧ s₁.lidx = -1 := by
  have hne : ascii "/listdev" ≠ ascii "/help" := by decide
  have hbin : (tftpBegin s mode false).binary = false := decide_eq_false hmode
  refine ⟨(openListdev env (tftpBegin s mode false)).1, ?_, ?_, ?_⟩
  · simp [tftpOpen, hne, openListdev, hbin]
  · simp [openListdev, hbin]
  · simp [openListdev, hbin]

/-- Who reads the text knows the devices that are in it. -/
theorem read_listdevText {lines : List Line}
    (hclean : ∀ l ∈ lines, newline ∉ l.dev ∧ tab ∉ l.dev) :
    (terminatedLines (listdevText lines)).map readListed
      = (firstLines lines).map fun l => some l.listed :=
  terminatedLines_text fun l hl => hclean l (mem_of_mem_firstLines hl)

/-- The devices in the text are all of them if and only if no name occurs twice. -/
theorem read_listdevText_iff {lines : List Line} (hok : ∀ l ∈ lines, l.Encodable)
    (hclean : ∀ l ∈ lines, newline ∉ l.dev ∧ tab ∉ l.dev) :
    (terminatedLines (listdevText lines)).map readListed
        = ((sortLines lines).map fun l => some l.listed)
      ↔ (lines.map Line.dev).Nodup := by
  rw [read_listdevText hclean, ← firstLines_eq_iff fun l hl => (hok l hl).name_ne]
  constructor
  · intro heq
    have hlen := congrArg List.length heq
    rw [List.length_map, List.length_map] at hlen
    exact (List.take_prefix _ _).eq_of_length hlen
  · intro heq
    rw [heq]

/-- **Reading the device list over a bad network.**  A client asks for `/listdev`.  Whatever is
lost, repeated, timed out or sent by others, it has a prefix of the text of the devices in front of
the first repeated name, and when it has seen the last block it knows every device of the table if
and only if no name occurs twice.  And it can get there. -/
theorem listdev_downloads {t : TftpState Unit} {addr : UInt32} {port : UInt16} (haddr : addr ≠ 0)
    (hport : port ≠ 0) (hhandle : t.handle = none) (ha : t.addr = 0) (hp : t.port = 0)
    {text : List UInt8} {lines : List Line} (hparse : parseTable text = some lines)
    (hok : ∀ l ∈ lines, l.Encodable) (hcsl : encodeCsl lines = some env.coreInfo) {p : Pbuf}
    {mode : List UInt8} (hmode : deref mode ≠ 0x6f)
    (hreq : IsRequest p tftpRrq (ascii "/listdev") mode) (s : Tapcp) :
    ∃ out, recv (casperTftpContext env) t (some s) p addr port = some out
      ∧ (∀ d, DownloadRun (casperTftpContext env) addr port (Download.start addr port out) d →
        d.client.got <+: listdevText lines
          ∧ (d.client.done = true → ((terminatedLines d.client.got).map readListed
              = ((sortLines lines).map fun l => some l.listed)
            ↔ (lines.map Line.dev).Nodup)))
      ∧ ∃ d, DownloadRun (casperTftpContext env) addr port (Download.start addr port out) d
        ∧ d.client.done = true := by
  have hclean : ∀ l ∈ lines, newline ∉ l.dev ∧ tab ∉ l.dev :=
    fun l hl => parseTable_clean hparse hl
  obtain ⟨s₁, hopen, hread, hlidx⟩ := tftpOpen_listdev env s hmode
  obtain ⟨blocks, hfile, hflat⟩ :=
    listdev_fileOf env hok (fun l hl => (hclean l hl).1) hcsl hread hlidx
  obtain ⟨out, hrecv, hs, hdata⟩ :=
    recv_rrq hhandle ha hp hreq (casperTftpContext_open env hopen) hfile
  obtain ⟨hgets, hends⟩ := hs.client_gets haddr hport hfile hdata
  rw [hflat] at hgets
  refine ⟨out, hrecv, fun d hrun => ⟨(hgets d hrun).1, fun hdone => ?_⟩, hends⟩
  rw [(hgets d hrun).2 hdone]
  exact read_listdevText_iff hok hclean

/-- The request for the list -/
def requestListdev : Pbuf := [be16 tftpRrq ++ (ascii "/listdev" ++ 0 :: (ascii "netascii" ++ [0]))]

theorem requestListdev_isRequest :
    IsRequest requestListdev tftpRrq (ascii "/listdev") (ascii "netascii") :=
  ⟨by decide, ⟨[], by simp [requestListdev]⟩, by decide, by decide, by decide, by decide⟩

/-- A table of two devices. -/
theorem listdev_downloads_gainTable : ∃ env : Env, encodeCsl gainTableLines = some env.coreInfo
    ∧ ∃ out, recv (casperTftpContext env) TftpState.init (some Tapcp.zero) requestListdev 0x0A000001
        4096 = some out
      ∧ (∀ d, DownloadRun (casperTftpContext env) 0x0A000001 4096
          (Download.start 0x0A000001 4096 out) d →
        d.client.got <+: listdevText gainTableLines
          ∧ (d.client.done = true → ((terminatedLines d.client.got).map readListed
              = ((sortLines gainTableLines).map fun l => some l.listed)
            ↔ (gainTableLines.map Line.dev).Nodup)))
      ∧ ∃ d, DownloadRun (casperTftpContext env) 0x0A000001 4096
          (Download.start 0x0A000001 4096 out) d ∧ d.client.done = true := by
  have hparse : parseTable gainTable = some gainTableLines := by decide +kernel
  have hok : ∀ l ∈ gainTableLines, l.Encodable := encodable_of_all (by decide +kernel)
  obtain ⟨csl, hcsl⟩ := encodeCsl_isSome hok
  exact ⟨{ Env.zero with coreInfo := csl }, hcsl,
    listdev_downloads _ (by decide) (by decide) rfl rfl rfl hparse hok hcsl
      (show deref (ascii "netascii") ≠ 0x6f by decide) requestListdev_isRequest Tapcp.zero⟩

end MlibDevel.Jam
