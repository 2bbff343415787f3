import MlibDevel.Jam.BinaryRead
import MlibDevel.Jam.HexNumber
import MlibDevel.Jam.Regions
import MlibDevel.Jam.TftpDownload

/-!
# Reading FPGA words over the network

The server and the callbacks of `casper_tftp.c` together: a client that reads a file of FPGA words
in mode `octet` gets the words, most significant byte first (`tapcp_downloads`).
-/

namespace MlibDevel.Jam

open Lib

variable (env : Env)

/-! ## The callbacks -/

/-- `casper_tftp_context`.  The application is gone with an access outside a static buffer, or a
reboot. -/
def casperTftpContext : TftpContext Unit (Option Tapcp) where
  «open» app fname mode write :=
    match app.bind (tftpOpen env · fname mode write) with
    | some (s, ok) => (some s, if ok then some () else none)
    | none => (none, none)
  close app _ := app.map tftpClose
  read app _ bytes :=
    match app.bind (callRead env · bytes) with
    | some (s, out) => (some s, out.ret, out.buf)
    | none => (none, -1, [])
  write app _ p :=
    match app.map (callWrite env · p) with
    | some (.ret s n) => (some s, n)
    | _ => (none, -1)

theorem casperTftpContext_open {s s' : Tapcp} {fname mode : List UInt8} {write : Bool}
    (hopen : tftpOpen env s fname mode write = some (s', true)) :
    (casperTftpContext env).open (some s) fname mode write = (some s', some ()) := by
  simp only [casperTftpContext, Option.bind_some, hopen, if_true]

/-- A read of FPGA words. -/
theorem casperTftpContext_read {s : Tapcp} (hread : s.readFn = .fpgaWordsBinary) (h : Unit)
    (bytes : Nat) : (casperTftpContext env).read (some s) h bytes
      = (some (fpgaWordsLoop env bytes s).1, ((fpgaWordsLoop env bytes s).2.length : Int),
        (fpgaWordsLoop env bytes s).2) := by
  simp only [casperTftpContext, Option.bind_some, callRead, hread, readFpgaWordsBinary]

/-! ## The words as a file -/

/-- **Whole words** leave the rest of the words to be read. -/
theorem fpgaWordsLoop_whole (k : Nat) : ∀ (m : Nat) {s : Tapcp}, s.nleft = 4 * (m + k : Nat) →
    ∃ s', fpgaWordsLoop env (4 * m) s = (s', env.beBytesAt s.ptr m) ∧ s'.nleft = 4 * k
      ∧ s'.readFn = s.readFn
      ∧ env.beBytesAt s.ptr (m + k) = env.beBytesAt s.ptr m ++ env.beBytesAt s'.ptr k
  | 0, s, hleft => by
    rw [Nat.zero_add] at hleft ⊢
    exact ⟨s, rfl, hleft, rfl, rfl⟩
  | m + 1, s, hleft => by
    have hword : s.nleft = 4 * (m + k + 1 : Nat) := by omega
    obtain ⟨s', hloop, hleft', hfn, hbytes⟩ :=
      fpgaWordsLoop_whole k m (s := inWord env s (m + k) 0) (Int.add_zero _)
    refine ⟨s', ?_, hleft', hfn, ?_⟩
    · rw [show 4 * (m + 1) = 4 + 4 * m by omega, fpgaWordsLoop_add,
        fpgaWordsLoop_word env hword, hloop,
        beBytesAt_succ]
      rfl
    · rw [show m + 1 + k = m + k + 1 by omega, beBytesAt_succ, beBytesAt_succ, List.append_assoc]
      exact congrArg _ hbytes

/-- The state after `pos` bytes of the `k` words from `addr` on -/
def WordsAt (addr : UInt32) (k : Nat) (app : Option Tapcp) (pos : Nat) : Prop :=
  ∃ (t : Tapcp) (j : Nat), app = some t ∧ t.readFn = .fpgaWordsBinary ∧ t.nleft = 4 * j
    ∧ env.beBytesAt t.ptr j = (env.beBytesAt addr k).drop pos

/-- **The words are a file**, of full blocks and a shorter last one. -/
theorem words_fileOf (k : Nat) {s : Tapcp} (hread : s.readFn = .fpgaWordsBinary)
    (hleft : s.nleft = 4 * k) :
    ∃ blocks, FileOf (casperTftpContext env) () (some s) blocks
      ∧ blocks.flatten = env.beBytesAt s.ptr k := by
  have hat : WordsAt env s.ptr k (some s) 0 := ⟨s, k, rfl, hread, hleft, rfl⟩
  refine fileOf_of_serves (env.beBytesAt s.ptr k) (WordsAt env s.ptr k) ?_ hat (Nat.zero_le _)
  rintro _ pos ⟨t, j, rfl, hfn, hj, hbytes⟩
  obtain ⟨hblock, -⟩ := fpgaWordsLoop_words env j tftpMaxPayloadSize hj
  refine ⟨_, _, casperTftpContext_read env hfn () tftpMaxPayloadSize, by rw [hblock, hbytes],
    fun hle => ?_⟩
  -- a full block is 128 words
  have hmax : tftpMaxPayloadSize = 4 * 128 := rfl
  have hlen := congrArg List.length hbytes
  rw [length_beBytesAt, List.length_drop] at hlen
  obtain ⟨j', rfl⟩ := Nat.exists_eq_add_of_le (show 128 ≤ j by omega)
  obtain ⟨t', hloop, hleft', hfn', hrest⟩ := fpgaWordsLoop_whole env j' 128 hj
  refine ⟨t', j', ?_, hfn'.trans hfn, hleft', ?_⟩
  · rw [hmax, hloop]
  · rw [← List.drop_drop, ← hbytes, hrest, hmax,
      List.drop_left' (length_beBytesAt env t.ptr 128)]

/-! ## The file name -/

/-- The name of the `len` bytes from `off` on -/
def fpgaName (off len : UInt32) : List UInt8 :=
  ascii "/fpga." ++ (u32ToHex off 0 ++ 0x2e :: u32ToHex len 0)

theorem cmdFields_fpgaName (off len dflt : UInt32) :
    cmdFields false (u32ToHex off 0 ++ 0x2e :: u32ToHex len 0) dflt = (off, len) := by
  obtain ⟨hword, hval⟩ := isWord_of_u32ToHex off 0 (t := 0x2e :: u32ToHex len 0) rfl
  have hoff : hexToU32 (u32ToHex off 0 ++ 0x2e :: u32ToHex len 0) 0
      = (off, 0x2e :: u32ToHex len 0) := by
    rw [hword.hexToU32_eq, hval, UInt32.ofNat_toNat]
  have hdot : deref (0x2e :: u32ToHex len 0) ≠ 0 := by
    rw [deref_cons]
    decide
  simp only [cmdFields, hoff, Bool.not_false, Bool.true_and, decide_eq_true hdot, if_true,
    List.tail_cons, hexToU32_u32ToHex]

theorem deref_fpgaName (off len : UInt32) :
    deref (u32ToHex off 0 ++ 0x2e :: u32ToHex len 0) ≠ 0 := by
  obtain ⟨hdigits, -, -, hne⟩ := u32ToHex_lead off
  obtain ⟨c, cs, heq⟩ := List.exists_cons_of_ne_nil hne
  have hc := hdigits c (by rw [heq]; exact List.mem_cons_self)
  rw [heq, List.cons_append, deref_cons]
  rintro rfl
  exact absurd hc (by decide)

/-- A name with the prefix `/fpga.` is for `casper_tapcp_open_mem`. -/
theorem tftpOpen_fpga (s : Tapcp) (mode : List UInt8) (write : Bool) (rest : List UInt8) :
    tftpOpen env s (ascii "/fpga." ++ rest) mode write
      = some (openMem (tftpBegin s mode write) (ascii "/fpga." ++ rest)) := by
  have hne : ∀ name ∈ [ascii "/help", ascii "/listdev", ascii "/temp"],
      ascii "/fpga." ++ rest ≠ name := by
    have hascii : ascii "/fpga." = [0x2f, 0x66, 0x70, 0x67, 0x61, 0x2e] := by decide
    have hlist : [ascii "/help", ascii "/listdev", ascii "/temp"]
        = [[0x2f, 0x68, 0x65, 0x6c, 0x70], [0x2f, 0x6c, 0x69, 0x73, 0x74, 0x64, 0x65, 0x76],
          [0x2f, 0x74, 0x65, 0x6d, 0x70]] := by decide
    rw [hlist, hascii]
    simp
  have hprefix : (ascii "/fpga.").isPrefixOf (ascii "/fpga." ++ rest) = true :=
    List.isPrefixOf_iff_prefix.mpr (List.prefix_append _ _)
  simp only [tftpOpen, hne _ (.head _), hne _ (.tail _ (.head _)), hne _
    (.tail _ (.tail _ (.head _))),
    false_and, if_false, hprefix, if_true]

/-- **The numbers of the name** are the words that are read. -/
theorem openMem_fpgaName {s : Tapcp} (hwrite : s.write = false) {off len : UInt32}
    (hoff : off.toNat % 4 = 0) (hlen : len.toNat % 4 = 0) (hpos : 0 < len.toNat)
    (hfit : off.toNat + len.toNat ≤ fpgaNbytes.toNat) :
    openMem s (fpgaName off len)
      = (openWords { s with ptr := fpgaBaseaddr + off, nleft := toInt32 len }, true) := by
  have hprefix : (ascii "/fpga.").isPrefixOf (fpgaName off len) = true :=
    List.isPrefixOf_iff_prefix.mpr (List.prefix_append _ _)
  have hdrop : (fpgaName off len).drop (ascii "/fpga.").length
      = u32ToHex off 0 ++ 0x2e :: u32ToHex len 0 := List.drop_left' rfl
  have hnbytes : fpgaNbytes.toNat = 0x100000 := by decide +kernel
  -- the numbers are rounded to words
  have hoff' : off &&& ~~~3 = off := by
    rw [← UInt32.toNat_inj, toNat_and_not_three]
    omega
  have hlen' : (len + 3) &&& ~~~3 = len := by
    have h3 : (3 : UInt32).toNat = 3 := rfl
    rw [← UInt32.toNat_inj, toNat_and_not_three, UInt32.toNat_add]
    omega
  have hzero : len ≠ 0 := by
    rintro rfl
    exact absurd hpos (by decide)
  have hend : ¬off + len > fpgaNbytes := by
    rw [gt_iff_lt, UInt32.lt_iff_toNat_lt, UInt32.toNat_add]
    omega
  rw [openMem, if_pos hprefix, hdrop, openMemAt, if_neg (deref_fpgaName off len), hwrite,
    cmdFields_fpgaName]
  simp [hoff', hlen', hzero, hend]

/-- **Opening the file** gives the words of the name. -/
theorem tftpOpen_fpgaName (s : Tapcp) {mode : List UInt8} (hmode : deref mode = 0x6f)
    {off len : UInt32} (hoff : off.toNat % 4 = 0) (hlen : len.toNat % 4 = 0) (hpos : 0 < len.toNat)
    (hfit : off.toNat + len.toNat ≤ fpgaNbytes.toNat) :
    ∃ s₁, tftpOpen env s (fpgaName off len) mode false = some (s₁, true)
      ∧ s₁.readFn = .fpgaWordsBinary ∧ s₁.ptr = fpgaBaseaddr + off
      ∧ s₁.nleft = 4 * (len.toNat / 4 : Nat) := by
  have hopen := openMem_fpgaName (s := tftpBegin s mode false) rfl hoff hlen hpos hfit
  have hnbytes : fpgaNbytes.toNat = 0x100000 := by decide +kernel
  have hnleft : toInt32 len = 4 * (len.toNat / 4 : Nat) := by
    rw [toInt32_of_lt (by omega)]
    omega
  refine ⟨_, (tftpOpen_fpga env s mode false _).trans (congrArg some hopen), ?_, ?_, ?_⟩
  · simp [openWords, tftpBegin, hmode]
  · simp [openWords, tftpBegin, hmode]
  · simpa [openWords, tftpBegin, hmode] using hnleft

/-! ## The whole path -/

/--
**Reading FPGA words over a bad network.**  A request for `/fpga.OFF.LEN` in mode `octet` is
delivered once.  Whatever is then lost, repeated, timed out or sent by others, it has a prefix of
the words there, most significant byte first, and all of them when it has seen the last block.  And
it can get there.
-/
theorem tapcp_downloads {t : TftpState Unit} {addr : UInt32} {port : UInt16} (haddr : addr ≠ 0)
    (hport : port ≠ 0) (hhandle : t.handle = none) (ha : t.addr = 0) (hp : t.port = 0)
    {off len : UInt32} (hoff : off.toNat % 4 = 0) (hlen : len.toNat % 4 = 0) (hpos : 0 < len.toNat)
    (hfit : off.toNat + len.toNat ≤ fpgaNbytes.toNat) {p : Pbuf} {mode : List UInt8}
    (hmode : deref mode = 0x6f) (hreq : IsRequest p tftpRrq (fpgaName off len) mode) (s : Tapcp) :
    ∃ out, recv (casperTftpContext env) t (some s) p addr port = some out
      ∧ (∀ d, DownloadRun (casperTftpContext env) addr port (Download.start addr port out) d →
        d.client.got <+: env.beBytesAt (fpgaBaseaddr + off) (len.toNat / 4)
          ∧ (d.client.done = true →
            d.client.got = env.beBytesAt (fpgaBaseaddr + off) (len.toNat / 4)))
      ∧ ∃ d, DownloadRun (casperTftpContext env) addr port (Download.start addr port out) d
        ∧ d.client.done = true := by
  obtain ⟨s₁, hopen, hread, hptr, hleft⟩ := tftpOpen_fpgaName env s hmode hoff hlen hpos hfit
  obtain ⟨blocks, hfile, hflat⟩ := words_fileOf env _ hread hleft
  obtain ⟨out, hrecv, hs, hdata⟩ :=
    recv_rrq hhandle ha hp hreq (casperTftpContext_open env hopen) hfile
  rw [← hptr, ← hflat]
  exact ⟨out, hrecv, hs.client_gets haddr hport hfile hdata⟩

/-- The request for 250 words from the second on -/
def requestWords : Pbuf := [be16 tftpRrq ++ (fpgaName 4 1000 ++ 0 :: (ascii "octet" ++ [0]))]

theorem requestWords_isRequest :
    IsRequest requestWords tftpRrq (fpgaName 4 1000) (ascii "octet") :=
  ⟨by decide, ⟨[], by simp [requestWords]⟩, by decide, by decide, by decide, by decide⟩

theorem tapcp_downloads_words :
    ∃ out, recv (casperTftpContext Env.zero) TftpState.init (some Tapcp.zero) requestWords
        0x0A000001 4096 = some out
      ∧ (∀ d, DownloadRun (casperTftpContext Env.zero) 0x0A000001 4096
          (Download.start 0x0A000001 4096 out) d →
        d.client.got <+: Env.zero.beBytesAt (fpgaBaseaddr + 4) ((1000 : UInt32).toNat / 4)
          ∧ (d.client.done = true →
            d.client.got = Env.zero.beBytesAt (fpgaBaseaddr + 4) ((1000 : UInt32).toNat / 4)))
      ∧ ∃ d, DownloadRun (casperTftpContext Env.zero) 0x0A000001 4096
          (Download.start 0x0A000001 4096 out) d ∧ d.client.done = true :=
  tapcp_downloads Env.zero (by decide) (by decide) rfl rfl rfl (by decide) (by decide) (by decide)
    (by decide) (show deref (ascii "octet") = 0x6f by decide) requestWords_isRequest Tapcp.zero

end MlibDevel.Jam
