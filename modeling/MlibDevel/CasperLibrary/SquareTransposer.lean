import Mathlib.Data.Nat.Bitwise
import Mathlib.Tactic.Ring
import MlibDevel.Lib.Ram

/-!
# The square transposer (`square_transposer_init.m`, `barrel_switcher_init.m`)

A square transposer has `2 ^ n` ports.  Of a block of `2 ^ n` words on each of them it puts out on
port `q` the words that came at time `q`, one port after another.

The blocks are functions of sequences of words, counted from the sync on; latencies are left out,
the delays that `square_transposer_init` draws are not.  The output begins when the sync has passed
the delay of `2 ^ n - 1` words (`squareTransposer_eq`).
-/

namespace MlibDevel.CasperLibrary

open Lib

variable {α : Type}

/-- `delay_slr`.  At the sync the register held `held`, in the order in which it comes out. -/
def delaySlr (len : Nat) (held x : Nat → α) (t : Nat) : α :=
  if t < len then held t else x (t - len)

theorem delaySlr_of_le {len t : Nat} (held x : Nat → α) (h : len ≤ t) :
    delaySlr len held x t = x (t - len) :=
  if_neg (Nat.not_lt.mpr h)

/-! ## The barrel switcher -/

/-- The port a number of ports further on. -/
def portAfter {n : Nat} (i : Fin (2 ^ n)) (k : Nat) : Fin (2 ^ n) := Fin.ofNat (2 ^ n) (i + k)

theorem portAfter_add {n : Nat} (i : Fin (2 ^ n)) (a b : Nat) :
    portAfter (portAfter i a) b = portAfter i (a + b) := by
  apply Fin.ext
  show ((i + a) % 2 ^ n + b) % 2 ^ n = (i + (a + b)) % 2 ^ n
  rw [Nat.mod_add_mod, Nat.add_assoc]

/--
The multiplexers of column `j`, counted from zero.  They are controlled by bit `j` of `sel` from the
most significant one on.  Row `i` is drawn to the second input of the row `2^n/2^(j+1)` before it
(`swmux`), so a second input comes from that many rows further on, round the end.
-/
def barrelColumn (n sel j : Nat) (d : Fin (2 ^ n) → α) : Fin (2 ^ n) → α := fun i =>
  if sel.testBit (n - 1 - j) then d (portAfter i (2 ^ n / 2 ^ (j + 1))) else d i

/-- `barrel_switcher` -/
def barrelSwitcher (n sel : Nat) (d : Fin (2 ^ n) → α) : Fin (2 ^ n) → α :=
  (List.range n).foldl (fun d j => barrelColumn n sel j d) d

/-- A number without its bits below `k`, with and without bit `k`. -/
theorem upper_bits_succ (sel k : Nat) :
    sel / 2 ^ k * 2 ^ k =
      (if sel.testBit k then 2 ^ k else 0) + sel / 2 ^ (k + 1) * 2 ^ (k + 1) := by
  have hhalf : sel / 2 ^ (k + 1) = sel / 2 ^ k / 2 := by
    rw [Nat.pow_succ, Nat.div_div_eq_div_mul]
  have hsplit := Nat.div_add_mod (sel / 2 ^ k) 2
  rw [hhalf, Nat.testBit_eq_decide_div_mod_eq, Nat.pow_succ]
  generalize sel / 2 ^ k = q at *
  by_cases hodd : q % 2 = 1
  · rw [hodd] at hsplit
    rw [decide_eq_true hodd, if_pos rfl]
    calc q * 2 ^ k
      _ = (2 * (q / 2) + 1) * 2 ^ k := by rw [hsplit]
      _ = 2 ^ k + q / 2 * (2 ^ k * 2) := by ring
  · rw [show q % 2 = 0 by omega] at hsplit
    rw [decide_eq_false hodd, if_neg Bool.false_ne_true]
    calc q * 2 ^ k
      _ = (2 * (q / 2) + 0) * 2 ^ k := by rw [hsplit]
      _ = 0 + q / 2 * (2 ^ k * 2) := by ring

/-- The first columns rotate by the most significant bits. -/
theorem barrelColumns_eq (n sel : Nat) (hsel : sel < 2 ^ n) (d : Fin (2 ^ n) → α) :
    ∀ (m : Nat), m ≤ n → ∀ i, (List.range m).foldl (fun d j => barrelColumn n sel j d) d i =
      d (portAfter i (sel / 2 ^ (n - m) * 2 ^ (n - m)))
  | 0, _, i => by
    rw [Nat.sub_zero, Nat.div_eq_of_lt hsel, Nat.zero_mul]
    exact congrArg d (Fin.ext (Nat.mod_eq_of_lt i.isLt).symm)
  | m + 1, hm, i => by
    have hbits : n - m = n - (m + 1) + 1 := by omega
    have hcolumn : 2 ^ n / 2 ^ (m + 1) = 2 ^ (n - (m + 1)) := Nat.pow_div hm (by omega)
    have ih := barrelColumns_eq n sel hsel d m (by omega)
    rw [List.range_succ, List.foldl_append]
    show barrelColumn n sel m _ i = _
    rw [barrelColumn, hcolumn, show n - 1 - m = n - (m + 1) by omega, ih, ih, hbits, portAfter_add]
    rw [upper_bits_succ sel (n - (m + 1))]
    split
    · rfl
    · rw [Nat.zero_add]

/-- **A barrel switcher rotates its inputs.** -/
theorem barrelSwitcher_eq (n : Nat) {sel : Nat} (hsel : sel < 2 ^ n) (d : Fin (2 ^ n) → α)
    (i : Fin (2 ^ n)) : barrelSwitcher n sel d i = d (portAfter i sel) := by
  rw [barrelSwitcher, barrelColumns_eq n sel hsel d n (Nat.le_refl n), Nat.sub_self, Nat.pow_zero,
    Nat.div_one, Nat.mul_one]

/-! ## The transposer -/

/-- A counter of `n` bits that counts down from zero. -/
def countDown (n : Nat) : Nat → Nat
  | 0 => 0
  | t + 1 => (countDown n t + (2 ^ n - 1)) % 2 ^ n

theorem countDown_lt (n t : Nat) : countDown n t < 2 ^ n := by
  cases t with
  | zero => exact Nat.two_pow_pos n
  | succ t => exact Nat.mod_lt _ (Nat.two_pow_pos n)

/-- It is the negative of the time. -/
theorem countDown_add (n t : Nat) : (countDown n t + t) % 2 ^ n = 0 := by
  induction t with
  | zero => exact Nat.zero_mod _
  | succ t ih =>
    have hpos := Nat.two_pow_pos n
    rw [countDown, Nat.mod_add_mod, show countDown n t + (2 ^ n - 1) + (t + 1) =
      countDown n t + t + 2 ^ n by omega, Nat.add_mod_right, ih]

/-- What the shift registers of a transposer held at the sync. -/
structure TransposerRegs (n : Nat) (α : Type) where
  df : Fin (2 ^ n) → Nat → α
  db : Fin (2 ^ n) → Nat → α

/-- The input of the switcher that a port is connected to, `dport` without the ports before. -/
def dport {n : Nat} (q : Fin (2 ^ n)) : Fin (2 ^ n) := Fin.ofNat (2 ^ n) (2 ^ n - q)

/--
`square_transposer`.  The inputs of the switcher are numbered by ports; `dport` is its own inverse,
so input `k` comes from port `dport k`.
-/
def squareTransposer {n : Nat} (regs : TransposerRegs n α) (x : Nat → Fin (2 ^ n) → α) (t : Nat)
    (q : Fin (2 ^ n)) : α :=
  let df := fun p : Fin (2 ^ n) => delaySlr p (regs.df p) fun t => x t p
  let switched := fun t => barrelSwitcher n (countDown n t) fun k => df (dport k) t
  delaySlr (2 ^ n - (q + 1)) (regs.db q) (fun t => switched t q) t

/-- A port and the input it is connected to add up to zero or once round. -/
theorem dport_eq {n : Nat} {k q : Fin (2 ^ n)} (h : ((k : Nat) + q) % 2 ^ n = 0) : dport k = q := by
  have hk := k.isLt
  have hq := q.isLt
  apply Fin.ext
  show (2 ^ n - (k : Nat)) % 2 ^ n = q
  rcases Nat.lt_or_ge (k + q) (2 ^ n) with hlt | hge
  · rw [Nat.mod_eq_of_lt hlt] at h
    rw [show 2 ^ n - (k : Nat) = 2 ^ n by omega, Nat.mod_self]
    omega
  · rw [Nat.mod_eq_sub_mod hge, Nat.mod_eq_of_lt (by omega)] at h
    rw [show 2 ^ n - (k : Nat) = q by omega, Nat.mod_eq_of_lt hq]

/-- Output `q` of the switcher comes from the port that is `q` before the time. -/
theorem dport_portAfter {n : Nat} (q : Fin (2 ^ n)) (t : Nat) :
    dport (portAfter q (countDown n (t + q))) = Fin.ofNat (2 ^ n) t := by
  apply dport_eq
  show (((q : Nat) + countDown n (t + q)) % 2 ^ n + t % 2 ^ n) % 2 ^ n = 0
  rw [← Nat.add_mod,
    show (q : Nat) + countDown n (t + q) + t = countDown n (t + q) + (t + q) by omega,
    countDown_add]

/-- **Blocks of ports and times are transposed.** -/
theorem squareTransposer_eq {n : Nat} (regs : TransposerRegs n α) (x : Nat → Fin (2 ^ n) → α)
    (t : Nat) (q : Fin (2 ^ n)) :
    squareTransposer regs x (t + (2 ^ n - 1)) q =
      x (t / 2 ^ n * 2 ^ n + q) (Fin.ofNat (2 ^ n) t) := by
  have hq := q.isLt
  have htime : t + (2 ^ n - 1) - (2 ^ n - (q + 1)) = t + q := by omega
  rw [squareTransposer, delaySlr_of_le _ _ (by omega), htime]
  dsimp only
  rw [barrelSwitcher_eq n (countDown_lt n _), dport_portAfter]
  have hmod := Nat.mod_le t (2 ^ n)
  have hdiv := Nat.div_add_mod t (2 ^ n)
  have hsub : t + q - t % 2 ^ n = t / 2 ^ n * 2 ^ n + q := by
    rw [Nat.mul_comm (t / 2 ^ n)]
    omega
  rw [delaySlr_of_le _ _ (by rw [Fin.val_ofNat]; omega), Fin.val_ofNat, hsub]

/-- The output counted from where `sync_out` comes, which `dsync` delays by `2 ^ n - 1` words. -/
def alignedOutput {n : Nat} (regs : TransposerRegs n α) (x : Nat → Fin (2 ^ n) → α) (t : Nat)
    (p : Fin (2 ^ n)) : α := squareTransposer regs x (t + (2 ^ n - 1)) p

/-- **Every block is transposed**: of the block `b` the word `q` on port `p` is the word `p` of port
`q`. -/
theorem alignedOutput_block (n : Nat) (regs : TransposerRegs n α) (x : Nat → Fin (2 ^ n) → α)
    (b : Nat) (p q : Fin (2 ^ n)) :
    alignedOutput regs x (b * 2 ^ n + q) p = x (b * 2 ^ n + p) q := by
  have hdiv : (b * 2 ^ n + q) / 2 ^ n = b := by
    rw [Nat.mul_comm, Nat.mul_add_div (Nat.two_pow_pos n), Nat.div_eq_of_lt q.isLt, Nat.add_zero]
  have hmod : Fin.ofNat (2 ^ n) (b * 2 ^ n + q) = q := by
    apply Fin.ext
    show (b * 2 ^ n + q) % 2 ^ n = q
    rw [Nat.add_comm, Nat.add_mul_mod_self_right, Nat.mod_eq_of_lt q.isLt]
  rw [alignedOutput, squareTransposer_eq, hdiv, hmod]

end MlibDevel.CasperLibrary
