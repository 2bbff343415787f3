import Mathlib.Data.List.Nodup
import MlibDevel.Lib.Calls

/-!
# The design rule check (`toolflow.py`)

A yellow block lists the resources it provides, those it requires, and those it requires for itself
alone.  Before a design is compiled it is checked that what its blocks require is provided, by a
block or by the platform, and that no resource is taken twice.

The exclusive requirements are compared with each other, but not with the plain ones.  So a design
is accepted where one block requires for itself alone what another block requires too
(`drc_not_exclusive`).

Main result: `drc_sound_iff` (which designs are treated rightly).
-/

namespace MlibDevel.Toolflow

open Lib

/-! ## The check -/

/-- A yellow block, as the check sees it -/
structure YellowBlock where
  name : String
  requires : List String := []
  provides : List String := []
  excRequires : List String := []

/-- `_get_provisions` -/
def getProvisions (periphObjs : List YellowBlock) (plat : List String) : List String :=
  periphObjs.foldl (fun provisions obj => provisions ++ obj.provides) [] ++ plat

def notProvided (obj : YellowBlock) (req : String) : String :=
  "DRC FAIL! " ++ req ++ " (required by " ++ obj.name
    ++ ") not provided by platform or any peripheral"

def alreadyUsed (obj : YellowBlock) (req : String) : String :=
  "DRC FAIL! " ++ obj.name ++ " requires " ++ req
    ++ ", but it has already been used by another block."

/-- The body of the first loop. -/
def checkReq (provisions : List String) (obj : YellowBlock) (req : String) : Except String Unit :=
  if req ∉ provisions then throw (notProvided obj req) else pure ()

/-- The body of the second loop. -/
def useReq (obj : YellowBlock) (used : List String) (req : String) : Except String (List String) :=
  if req ∈ used then throw (alreadyUsed obj req) else pure (used ++ [req])

/-- `_drc`, for the resources `plat` of the platform -/
def drc (periphObjs : List YellowBlock) (plat : List String) : Except String Unit := do
  let provisions := getProvisions periphObjs plat
  periphObjs.forM fun obj =>
    [obj.requires, obj.excRequires].forM fun reqList => reqList.forM (checkReq provisions obj)
  let _used ← periphObjs.foldlM (fun used obj => obj.excRequires.foldlM (useReq obj) used) []
  pure ()

/-! ## What it is for -/

/-- Every required resource is provided. -/
def AllProvided (periphObjs : List YellowBlock) (plat : List String) : Prop :=
  ∀ obj ∈ periphObjs, ∀ req, req ∈ obj.requires ∨ req ∈ obj.excRequires →
    (∃ other ∈ periphObjs, req ∈ other.provides) ∨ req ∈ plat

/-- What a block requires for itself alone, no other block requires. -/
def Exclusive (periphObjs : List YellowBlock) : Prop :=
  ∀ (i j : Nat) (a b : YellowBlock), i ≠ j → periphObjs[i]? = some a → periphObjs[j]? = some b →
    ∀ req ∈ a.excRequires, req ∉ b.requires ∧ req ∉ b.excRequires

/-- What one block requires for itself alone, another has among its plain requirements. -/
def RequiredPlainly (periphObjs : List YellowBlock) : Prop :=
  ∃ (i j : Nat) (a b : YellowBlock), i ≠ j ∧ periphObjs[i]? = some a ∧ periphObjs[j]? = some b ∧
    ∃ req ∈ a.excRequires, req ∈ b.requires

/-! ## What it accepts -/

theorem mem_getProvisions (periphObjs : List YellowBlock) (plat : List String) (req : String) :
    req ∈ getProvisions periphObjs plat ↔ (∃ obj ∈ periphObjs, req ∈ obj.provides) ∨
      req ∈ plat := by
  simp [getProvisions]

theorem checkReq_eq_ok {provisions : List String} {obj : YellowBlock} {req : String} :
    checkReq provisions obj req = .ok () ↔ req ∈ provisions := by
  unfold checkReq
  split
  · next h => simpa [throw, throwThe, MonadExceptOf.throw] using h
  · next h => simpa [pure, Except.pure] using h

/-- The requirements of a block are used if none of them is yet, and none twice. -/
theorem foldlM_useReq (obj : YellowBlock) : ∀ (reqs used used' : List String), used.Nodup →
    (reqs.foldlM (useReq obj) used = .ok used' ↔ used' = used ++ reqs ∧ (used ++ reqs).Nodup)
  | [], used, used', hused => by simp [pure, Except.pure, hused, eq_comm]
  | req :: reqs, used, used', hused => by
    have hcons : used ++ req :: reqs = used ++ [req] ++ reqs := List.append_cons ..
    by_cases hreq : req ∈ used
    · have hstop : useReq obj used req = .error (alreadyUsed obj req) := if_pos hreq
      have hdup : ¬(used ++ [req] ++ reqs).Nodup := by
        intro hnodup
        have hdisj := List.disjoint_of_nodup_append hnodup.of_append_left
        exact hdisj hreq (List.mem_singleton.mpr rfl)
      rw [List.foldlM_cons, hstop, hcons]
      exact iff_of_false (fun h => nomatch h) fun h => hdup h.2
    · have hgo : useReq obj used req = .ok (used ++ [req]) := if_neg hreq
      have hnew : (used ++ [req]).Nodup := by
        rw [List.nodup_append_comm]
        exact List.nodup_cons.mpr ⟨hreq, hused⟩
      rw [List.foldlM_cons, hgo, hcons]
      exact foldlM_useReq obj reqs (used ++ [req]) used' hnew

theorem foldlM_excRequires : ∀ (objs : List YellowBlock) (used used' : List String), used.Nodup →
    (objs.foldlM (fun used obj => obj.excRequires.foldlM (useReq obj) used) used = .ok used' ↔
      used' = used ++ objs.flatMap YellowBlock.excRequires ∧
        (used ++ objs.flatMap YellowBlock.excRequires).Nodup)
  | [], used, used', hused => by simp [pure, Except.pure, hused, eq_comm]
  | obj :: objs, used, used', hused => by
    rw [List.foldlM_cons, List.flatMap_cons, ← List.append_assoc]
    by_cases hnew : (used ++ obj.excRequires).Nodup
    · rw [(foldlM_useReq obj obj.excRequires used _ hused).mpr ⟨rfl, hnew⟩]
      exact foldlM_excRequires objs (used ++ obj.excRequires) used' hnew
    · cases hobj : obj.excRequires.foldlM (useReq obj) used with
      | ok u => exact absurd ((foldlM_useReq obj _ _ _ hused).mp hobj).2 hnew
      | error e => exact iff_of_false (fun h => nomatch h) fun h => hnew h.2.of_append_left

/-- **A design is accepted if everything is provided and the exclusive requirements are all
different.** -/
theorem drc_eq_ok_iff (periphObjs : List YellowBlock) (plat : List String) :
    drc periphObjs plat = .ok () ↔
      AllProvided periphObjs plat ∧ (periphObjs.flatMap YellowBlock.excRequires).Nodup := by
  have hused : ∀ used', _ := fun used' => foldlM_excRequires periphObjs [] used' List.nodup_nil
  simp only [drc, List.forM_eq_forM, bind_eq_ok_iff, forM_eq_ok_iff, checkReq_eq_ok,
    mem_getProvisions, hused, List.nil_append]
  simp only [AllProvided, List.forall_mem_cons, List.not_mem_nil, false_imp_iff, implies_true,
    and_true, or_imp, forall_and]
  simp [pure, Except.pure]

/-! ## Which designs are treated rightly -/

theorem excRequires_disjoint {periphObjs : List YellowBlock} {i j : Nat} {a b : YellowBlock}
    (hnodup : (periphObjs.flatMap YellowBlock.excRequires).Nodup) (hij : i ≠ j)
    (ha : periphObjs[i]? = some a) (hb : periphObjs[j]? = some b) :
    a.excRequires.Disjoint b.excRequires := by
  obtain ⟨hi, rfl⟩ := List.getElem?_eq_some_iff.mp ha
  obtain ⟨hj, rfl⟩ := List.getElem?_eq_some_iff.mp hb
  have hpairs := List.pairwise_iff_getElem.mp (List.nodup_flatMap.mp hnodup).2
  rcases Nat.lt_or_gt_of_ne hij with hlt | hgt
  · exact hpairs i j hi hj hlt
  · exact fun req hreq hreq' => hpairs j i hj hi hgt hreq' hreq

/-- **The check does what it is for, unless a design that is all right otherwise has a resource that
one block requires for itself alone and another requires plainly.** -/
theorem drc_sound_iff (periphObjs : List YellowBlock) (plat : List String) :
    (drc periphObjs plat = .ok () → AllProvided periphObjs plat ∧ Exclusive periphObjs) ↔
      (RequiredPlainly periphObjs →
        ¬AllProvided periphObjs plat ∨ ¬(periphObjs.flatMap YellowBlock.excRequires).Nodup) := by
  rw [drc_eq_ok_iff]
  constructor
  · rintro hsound ⟨i, j, a, b, hij, ha, hb, req, hexc, hreq⟩
    by_contra hfails
    rw [not_or, not_not, not_not] at hfails
    exact ((hsound hfails).2 i j a b hij ha hb req hexc).1 hreq
  · rintro hplain ⟨hprovided, hnodup⟩
    refine ⟨hprovided, fun i j a b hij ha hb req hexc => ⟨fun hreq => ?_, ?_⟩⟩
    · rcases hplain ⟨i, j, a, b, hij, ha, hb, req, hexc, hreq⟩ with hno | hno
      · exact hno hprovided
      · exact hno hnodup
    · exact excRequires_disjoint hnodup hij ha hb hexc

/-- Two converters on one connector: `adc16` requires it for itself alone, `adc` requires it. -/
theorem drc_not_exclusive :
    ¬∀ periphObjs plat, drc periphObjs plat = .ok () → AllProvided periphObjs plat ∧
      Exclusive periphObjs := by
  intro hsound
  let adc16 : YellowBlock := ⟨"adc16", ["user_clk"], ["adc0_clk"], ["zdok0"]⟩
  let adc : YellowBlock := ⟨"adc", ["zdok0"], ["adc0_clk"], []⟩
  have haccepts : drc [adc16, adc] ["zdok0", "user_clk"] = .ok () := by decide
  exact ((hsound _ _ haccepts).2 0 1 adc16 adc (by decide) rfl rfl "zdok0" (by decide)).1
    (by decide)

end MlibDevel.Toolflow
