import Mathlib.Data.FinEnum
import Mathlib.Data.List.TakeWhile
import Nyx.Qemu.Paging

/-!
# Software breakpoints

Redqueen hooks an instruction by a breakpoint: its first byte is replaced by `int3` and kept in a
list. Breakpoints nest, and the byte comes back with the last removal.
-/

namespace Nyx.Breakpoint

open Paging Function

/-- `kvm_sw_breakpoint`; `saved_insn` holds one byte. -/
structure SwBreakpoint where
  pc : UInt64
  savedInsn : UInt8
  useCount : Int32

/-- `parent_cr3`, where `address_space_rw` succeeds, and whether `KVM_SET_GUEST_DEBUG` does. -/
structure Env where
  parentCr3 : UInt64
  reads : UInt64 → Bool
  writes : UInt64 → Bool
  setsGuestDebug : Bool

/-- `guestDebug` is the control word of the last `KVM_SET_GUEST_DEBUG`: software breakpoints or
nothing. -/
structure State where
  mem : PhysMem
  breakpoints : List SwBreakpoint
  guestDebug : Bool

inductive Errno where
  | einval
  | enoent
  | ioctl
  deriving DecidableEq

def redqueenInsertSwBreakpoint (env : Env) (mem : PhysMem) (bp : SwBreakpoint) :
    Except Errno (SwBreakpoint × PhysMem) :=
  let physAddr := get48PagingPhysAddr mem env.parentCr3 bp.pc
  if env.reads physAddr && env.writes physAddr then
    .ok ({ bp with savedInsn := mem physAddr }, update mem physAddr 0xcc)
  else .error .einval

def redqueenRemoveSwBreakpoint (env : Env) (mem : PhysMem) (bp : SwBreakpoint) :
    Except Errno PhysMem :=
  let physAddr := get48PagingPhysAddr mem env.parentCr3 bp.pc
  if env.reads physAddr && mem physAddr == 0xcc && env.writes physAddr then
    .ok (update mem physAddr bp.savedInsn)
  else .error .einval

/-- The breakpoint, between those in front of it and those behind it. -/
def redqueenFindBreakpoint (bps : List SwBreakpoint) (pc : UInt64) :
    Option (List SwBreakpoint × SwBreakpoint × List SwBreakpoint) :=
  match bps.span (·.pc != pc) with
  | (before, bp :: after) => some (before, bp, after)
  | (_, []) => none

def redqueenUpdateGuestDebug (env : Env) (s : State) : Except Errno Unit × State :=
  if env.setsGuestDebug then (.ok (), { s with guestDebug := !s.breakpoints.isEmpty })
  else (.error .ioctl, s)

def redqueenInsertBreakpoint (env : Env) (s : State) (addr : UInt64) : Except Errno Unit × State :=
  match redqueenFindBreakpoint s.breakpoints addr with
  | some (before, bp, after) =>
    (.ok (), { s with breakpoints := before ++ { bp with useCount := bp.useCount + 1 } :: after })
  | none =>
    match redqueenInsertSwBreakpoint env s.mem ⟨addr, 0, 1⟩ with
    | .error e => (.error e, s)
    | .ok (bp, mem) =>
      redqueenUpdateGuestDebug env { s with mem := mem, breakpoints := bp :: s.breakpoints }

def redqueenRemoveBreakpoint (env : Env) (s : State) (addr : UInt64) : Except Errno Unit × State :=
  match redqueenFindBreakpoint s.breakpoints addr with
  | none => (.error .enoent, s)
  | some (before, bp, after) =>
    if bp.useCount > 1 then
      (.ok (), { s with breakpoints := before ++ { bp with useCount := bp.useCount - 1 } :: after })
    else
      match redqueenRemoveSwBreakpoint env s.mem bp with
      | .error e => (.error e, s)
      | .ok mem =>
        redqueenUpdateGuestDebug env { s with mem := mem, breakpoints := before ++ after }

/-- The loop of `redqueen_remove_all_breakpoints`. A breakpoint leaves the list even if its byte
could not be restored. -/
def removeAllLoop (env : Env) : List SwBreakpoint → PhysMem → PhysMem
  | [], mem => mem
  | bp :: bps, mem =>
    match redqueenRemoveSwBreakpoint env mem bp with
    | .error _ => removeAllLoop env bps mem
    | .ok mem => removeAllLoop env bps mem

/-- The calls of other files. They ignore what went wrong. -/
inductive Op where
  | insert (addr : UInt64)
  | remove (addr : UInt64)
  | removeAll
  deriving DecidableEq

def insertBreakpoint (env : Env) (s : State) (addr : UInt64) : State :=
  (redqueenUpdateGuestDebug env (redqueenInsertBreakpoint env s addr).2).2

def removeBreakpoint (env : Env) (s : State) (addr : UInt64) : State :=
  (redqueenUpdateGuestDebug env (redqueenRemoveBreakpoint env s addr).2).2

def removeAllBreakpoints (env : Env) (s : State) : State :=
  let s := { s with mem := removeAllLoop env s.breakpoints s.mem, breakpoints := [] }
  (redqueenUpdateGuestDebug env s).2

def step (env : Env) (s : State) : Op → State
  | .insert addr => insertBreakpoint env s addr
  | .remove addr => removeBreakpoint env s addr
  | .removeAll => removeAllBreakpoints env s

def run (env : Env) (s : State) (ops : List Op) : State := ops.foldl (step env) s

/-! ### Nesting counts -/

def Op.count (count : UInt64 → ℕ) : Op → UInt64 → ℕ
  | .insert addr => update count addr (count addr + 1)
  | .remove addr => update count addr (count addr - 1)
  | .removeAll => fun _ => 0

def nesting (ops : List Op) : UInt64 → ℕ := ops.foldl Op.count fun _ => 0

def Op.Within (A : Set UInt64) : Op → Prop
  | .insert addr => addr ∈ A
  | .remove addr => addr ∈ A
  | .removeAll => True

def physAddr (mem : PhysMem) (cr3 addr : UInt64) : UInt64 :=
  UInt64.ofNat ((translate mem cr3.toNat addr.toNat).getD 0)

open Classical in
/-- The memory with `int3` at the bytes of the addresses with a positive count. -/
noncomputable def patched (mem : PhysMem) (cr3 : UInt64) (count : UInt64 → ℕ) : PhysMem := fun p =>
  if ∃ a, 0 < count a ∧ physAddr mem cr3 a = p then 0xcc else mem p

/-- The addresses of `A` are mapped to different bytes, which can be accessed. -/
structure Hookable (env : Env) (mem : PhysMem) (A : Set UInt64) : Prop where
  mapped : ∀ a ∈ A, (translate mem env.parentCr3.toNat a.toNat).isSome
  distinct : Set.InjOn (physAddr mem env.parentCr3) A
  reads : ∀ a ∈ A, env.reads (physAddr mem env.parentCr3 a) = true
  writes : ∀ a ∈ A, env.writes (physAddr mem env.parentCr3 a) = true

/-- The page walk finds the bytes of `A`, and none of them is part of the page tables. -/
structure Walkable (env : Env) (mem : PhysMem) (A : Set UInt64) : Prop where
  fits : ∀ a ∈ A, LowestBitFits mem env.parentCr3 a
  stable : ∀ mem' : PhysMem, (∀ p, p ∉ physAddr mem env.parentCr3 '' A → mem' p = mem p) →
    ∀ a ∈ A, get48PagingPhysAddr mem' env.parentCr3 a = get48PagingPhysAddr mem env.parentCr3 a

section Tracks

variable {env : Env} {mem : PhysMem} {A : Set UInt64} {count : UInt64 → ℕ}

lemma patched_zero (mem : PhysMem) (cr3 : UInt64) : patched mem cr3 (fun _ => 0) = mem := by
  funext p
  simp [patched]

lemma patched_of_not_mem (hcount : ∀ a, 0 < count a → a ∈ A) {cr3 p : UInt64}
    (hp : p ∉ physAddr mem cr3 '' A) : patched mem cr3 count p = mem p := by
  apply if_neg
  rintro ⟨a, ha, rfl⟩
  exact hp ⟨a, hcount a ha, rfl⟩

lemma patched_update (h : Hookable env mem A) (hcount : ∀ a, 0 < count a → a ∈ A) {a : UInt64}
    (ha : a ∈ A) (n : ℕ) :
    patched mem env.parentCr3 (update count a n) =
      update (patched mem env.parentCr3 count) (physAddr mem env.parentCr3 a)
        (if 0 < n then 0xcc else mem (physAddr mem env.parentCr3 a)) := by
  funext p
  by_cases hp : p = physAddr mem env.parentCr3 a
  · subst hp
    rw [update_self]
    refine if_congr ⟨?_, fun hn => ⟨a, by rwa [update_self], rfl⟩⟩ rfl rfl
    rintro ⟨b, hb, heq⟩
    by_cases hba : b = a
    · rwa [hba, update_self] at hb
    · rw [update_of_ne hba] at hb
      exact absurd (h.distinct (hcount b hb) ha heq) hba
  · rw [update_of_ne hp]
    refine if_congr (exists_congr fun b => and_congr_left fun heq => ?_) rfl rfl
    rw [update_of_ne]
    rintro rfl
    exact hp heq.symm

lemma get48PagingPhysAddr_eq_physAddr (h : Hookable env mem A) (hw : Walkable env mem A)
    {a : UInt64} (ha : a ∈ A) :
    get48PagingPhysAddr mem env.parentCr3 a = physAddr mem env.parentCr3 a := by
  obtain ⟨pa, hpa⟩ := Option.isSome_iff_exists.mp (h.mapped a ha)
  obtain ⟨l, hl, rfl⟩ := Option.map_eq_some_iff.mp hpa
  have hwalk := toNat_get48PagingPhysAddr mem env.parentCr3 a
  rw [hl, returned_some, (l.returned_eq_phys_iff a.toNat (leaf_bits hl)).mpr (hw.fits a ha l hl)]
    at hwalk
  rw [physAddr, hpa, Option.getD_some, ← hwalk, UInt64.ofNat_toNat]

/-- The breakpoints in the list are those with a positive count. -/
def Tracks (env : Env) (mem : PhysMem) (A : Set UInt64) :
    List SwBreakpoint → (UInt64 → ℕ) → Prop
  | [], count => ∀ a, count a = 0
  | bp :: bps, count => bp.pc ∈ A ∧ 0 < count bp.pc ∧ bp.useCount.toInt = count bp.pc ∧
      bp.savedInsn = mem (physAddr mem env.parentCr3 bp.pc) ∧
      Tracks env mem A bps (update count bp.pc 0)

variable {bps bps' : List SwBreakpoint} {bp : SwBreakpoint} {s : State} {a : UInt64}

lemma Tracks.exists_of_pos (h : Tracks env mem A bps count) (ha : 0 < count a) :
    a ∈ A ∧ ∃ bp ∈ bps, bp.pc = a := by
  induction bps generalizing count with
  | nil => exact absurd (h a) ha.ne'
  | cons bp bps ih =>
    obtain ⟨hA, -, -, -, hrest⟩ := h
    by_cases hpc : a = bp.pc
    · exact ⟨hpc ▸ hA, bp, by simp, hpc.symm⟩
    · obtain ⟨hA, bp', hmem, hpc'⟩ := ih hrest (by rwa [update_of_ne hpc])
      exact ⟨hA, bp', List.mem_cons_of_mem bp hmem, hpc'⟩

lemma Tracks.perm (hperm : bps.Perm bps') (h : Tracks env mem A bps count) :
    Tracks env mem A bps' count := by
  induction hperm generalizing count with
  | nil => exact h
  | cons bp _ ih => exact ⟨h.1, h.2.1, h.2.2.1, h.2.2.2.1, ih h.2.2.2.2⟩
  | swap x y bps =>
    obtain ⟨hyA, hypos, hyuse, hysaved, hxA, hxpos, hxuse, hxsaved, hrest⟩ := h
    -- the count of the first one is zero for the second one
    have hne : x.pc ≠ y.pc := by
      intro heq
      rw [heq, update_self] at hxpos
      exact absurd rfl hxpos.ne
    rw [update_of_ne hne] at hxpos hxuse
    rw [update_comm hne.symm] at hrest
    refine ⟨hxA, hxpos, hxuse, hxsaved, hyA, ?_, ?_, hysaved, hrest⟩
    · rwa [update_of_ne hne.symm]
    · rwa [update_of_ne hne.symm]
  | trans _ _ ih ih' => exact ih' (ih h)

lemma redqueenFindBreakpoint_eq_some {before after : List SwBreakpoint}
    (h : redqueenFindBreakpoint bps a = some (before, bp, after)) :
    bps = before ++ bp :: after ∧ bp.pc = a := by
  unfold redqueenFindBreakpoint at h
  split at h
  · next before' bp' after' hspan =>
    cases h
    rw [List.span_eq_takeWhile_dropWhile, Prod.mk.injEq] at hspan
    obtain ⟨hbefore, hafter⟩ := hspan
    have hstop := List.head?_dropWhile_not (·.pc != a) bps
    rw [hafter] at hstop
    exact ⟨by rw [← hbefore, ← hafter, List.takeWhile_append_dropWhile], by simpa using hstop⟩
  · cases h

lemma redqueenFindBreakpoint_eq_none (h : redqueenFindBreakpoint bps a = none) :
    ¬∃ bp ∈ bps, bp.pc = a := by
  unfold redqueenFindBreakpoint at h
  split at h
  · cases h
  · next before hspan =>
    rw [List.span_eq_takeWhile_dropWhile, Prod.mk.injEq, List.dropWhile_eq_nil_iff] at hspan
    rintro ⟨bp, hmem, hpc⟩
    simpa [hpc] using hspan.2 bp hmem

/-- The memory has the breakpoints that are set, and no other change. -/
structure Inv (env : Env) (mem : PhysMem) (A : Set UInt64) (count : UInt64 → ℕ) (s : State) :
    Prop where
  tracks : Tracks env mem A s.breakpoints count
  mem_eq : s.mem = patched mem env.parentCr3 count

namespace Inv

lemma updateGuestDebug (hs : Inv env mem A count s) :
    Inv env mem A count (redqueenUpdateGuestDebug env s).2 := by
  unfold redqueenUpdateGuestDebug
  split
  · exact ⟨hs.tracks, hs.mem_eq⟩
  · exact hs

lemma eq_zero (hs : Inv env mem A count s) (hfind : redqueenFindBreakpoint s.breakpoints a = none) :
    count a = 0 := by
  by_contra hpos
  obtain ⟨-, hlisted⟩ := hs.tracks.exists_of_pos (Nat.pos_of_ne_zero hpos)
  exact redqueenFindBreakpoint_eq_none hfind hlisted

variable (h : Hookable env mem A) (hw : Walkable env mem A)
include h

lemma patched_update (hs : Inv env mem A count s) (ha : a ∈ A) (n : ℕ) :
    patched mem env.parentCr3 (update count a n) =
      update s.mem (physAddr mem env.parentCr3 a)
        (if 0 < n then 0xcc else mem (physAddr mem env.parentCr3 a)) := by
  rw [hs.mem_eq]
  exact Breakpoint.patched_update h (fun b hb => (hs.tracks.exists_of_pos hb).1) ha n

lemma recount (hs : Inv env mem A count s) {before after : List SwBreakpoint}
    (hbps : s.breakpoints = before ++ bp :: after) {n : ℕ} (hn : 0 < n) {useCount : Int32}
    (huse : useCount.toInt = n) :
    Inv env mem A (update count bp.pc n)
      { s with breakpoints := before ++ { bp with useCount := useCount } :: after } := by
  have htracks := hs.tracks
  rw [hbps] at htracks
  obtain ⟨hA, hpos, -, hsaved, hrest⟩ := htracks.perm List.perm_middle
  constructor
  · apply Tracks.perm List.perm_middle.symm
    refine ⟨hA, by simpa using hn, by simpa using huse, hsaved, by simpa using hrest⟩
  · -- the byte is patched already
    rw [hs.patched_update h hA, if_pos hn, eq_comm, update_eq_self_iff, hs.mem_eq]
    exact (if_pos ⟨bp.pc, hpos, rfl⟩).symm

include hw

variable (hs : Inv env mem A count s)
include hs

lemma walk (ha : a ∈ A) :
    get48PagingPhysAddr s.mem env.parentCr3 a = physAddr mem env.parentCr3 a := by
  rw [← get48PagingPhysAddr_eq_physAddr h hw ha, hs.mem_eq]
  exact hw.stable _ (fun p hp => patched_of_not_mem (fun b hb => (hs.tracks.exists_of_pos hb).1) hp)
    a ha

lemma drop (hbps : s.breakpoints.Perm (bp :: bps)) :
    ∃ mem', redqueenRemoveSwBreakpoint env s.mem bp = .ok mem' ∧
      Inv env mem A (update count bp.pc 0) { s with mem := mem', breakpoints := bps } := by
  obtain ⟨hA, hpos, -, hsaved, hrest⟩ := hs.tracks.perm hbps
  have hint3 : s.mem (physAddr mem env.parentCr3 bp.pc) = 0xcc := by
    rw [hs.mem_eq]
    exact if_pos ⟨bp.pc, hpos, rfl⟩
  have hback := hs.patched_update h hA 0
  rw [if_neg (lt_irrefl 0), ← hsaved] at hback
  refine ⟨_, ?_, hrest, hback.symm⟩
  rw [redqueenRemoveSwBreakpoint, hs.walk h hw hA, h.reads _ hA, h.writes _ hA, hint3]
  rfl

lemma insert (ha : a ∈ A) (hlimit : count a < 2 ^ 31 - 1) :
    Inv env mem A (update count a (count a + 1)) (redqueenInsertBreakpoint env s a).2 := by
  unfold redqueenInsertBreakpoint
  split
  · next before bp after hfind =>
    obtain ⟨hbps, rfl⟩ := redqueenFindBreakpoint_eq_some hfind
    apply hs.recount h hbps (Nat.succ_pos _)
    have htracks := hs.tracks
    rw [hbps] at htracks
    obtain ⟨-, -, huse, -, -⟩ := htracks.perm List.perm_middle
    rw [Int32.toInt_add, huse]
    exact Int.bmod_eq_of_le (by simp; omega) (by simp; omega)
  · next hfind =>
    have hzero := hs.eq_zero hfind
    have hpatched := hs.patched_update h ha (count a + 1)
    have hbyte : s.mem (physAddr mem env.parentCr3 a) = mem (physAddr mem env.parentCr3 a) := by
      have hsame := hs.patched_update h ha 0
      rw [if_neg (lt_irrefl 0), ← hzero, update_eq_self, ← hs.mem_eq] at hsame
      exact (congrFun hsame _).trans (update_self ..)
    rw [redqueenInsertSwBreakpoint, hs.walk h hw ha, h.reads _ ha, h.writes _ ha, hbyte]
    apply updateGuestDebug
    refine ⟨⟨ha, by simp, by simp [hzero], rfl, ?_⟩, hpatched.symm⟩
    have hsame : update count a 0 = count := update_eq_self_iff.mpr hzero.symm
    simpa [hsame] using hs.tracks

lemma remove (hlimit : count a < 2 ^ 31) :
    Inv env mem A (update count a (count a - 1)) (redqueenRemoveBreakpoint env s a).2 := by
  unfold redqueenRemoveBreakpoint
  split
  · next hfind =>
    have hzero := hs.eq_zero hfind
    have hsame : update count a (count a - 1) = count := by
      rw [update_eq_self_iff, hzero]
    rwa [hsame]
  · next before bp after hfind =>
    obtain ⟨hbps, rfl⟩ := redqueenFindBreakpoint_eq_some hfind
    have htracks := hs.tracks
    rw [hbps] at htracks
    obtain ⟨-, hpos, huse, -, -⟩ := htracks.perm List.perm_middle
    split
    · next hmore =>
      rw [gt_iff_lt, Int32.lt_iff_toInt_lt, huse] at hmore
      have hone : (1 : Int32).toInt = 1 := rfl
      apply hs.recount h hbps (by omega)
      rw [Int32.toInt_sub, huse]
      rw [Int.bmod_eq_of_le (by simp; omega) (by simp; omega)]
      omega
    · next hlast =>
      rw [gt_iff_lt, Int32.lt_iff_toInt_lt, huse] at hlast
      have hone : count bp.pc - 1 = 0 := by
        have hone : (1 : Int32).toInt = 1 := rfl
        omega
      obtain ⟨mem', hsw, hdrop⟩ := hs.drop h hw (hbps ▸ List.perm_middle)
      rw [hsw, hone]
      exact hdrop.updateGuestDebug

lemma removeAll :
    Inv env mem A (fun _ => 0)
      { s with mem := removeAllLoop env s.breakpoints s.mem, breakpoints := [] } := by
  obtain ⟨mem', bps, debug⟩ := s
  induction bps generalizing count mem' with
  | nil =>
    obtain rfl : count = fun _ => 0 := funext hs.tracks
    exact hs
  | cons bp bps ih =>
    obtain ⟨mem'', hsw, hdrop⟩ := hs.drop h hw (List.Perm.refl _)
    have hloop : removeAllLoop env (bp :: bps) mem' = removeAllLoop env bps mem'' := by
      rw [removeAllLoop, hsw]
    rw [hloop]
    exact ih mem'' hdrop

end Inv

/-- No insertion makes a count too large for an `int`. -/
def Fit : (UInt64 → ℕ) → List Op → Prop
  | _, [] => True
  | count, op :: ops => (∀ addr, op = .insert addr → count addr < 2 ^ 31 - 1) ∧ Fit (op.count count) ops

lemma Inv.step (h : Hookable env mem A) (hw : Walkable env mem A) (hs : Inv env mem A count s)
    (hcount : ∀ a, count a < 2 ^ 31) {op : Op} (hop : op.Within A)
    (hfits : ∀ addr, op = .insert addr → count addr < 2 ^ 31 - 1) :
    Inv env mem A (op.count count) (step env s op) ∧ ∀ a, op.count count a < 2 ^ 31 := by
  cases op with
  | insert addr =>
    have hlimit := hfits addr rfl
    refine ⟨(hs.insert h hw hop hlimit).updateGuestDebug, fun a => ?_⟩
    have := hcount a
    rw [Op.count, update_apply]
    split <;> omega
  | remove addr =>
    refine ⟨(hs.remove h hw (hcount addr)).updateGuestDebug, fun a => ?_⟩
    have := hcount addr
    have := hcount a
    rw [Op.count, update_apply]
    split <;> omega
  | removeAll => exact ⟨(hs.removeAll h hw).updateGuestDebug, fun _ => Nat.two_pow_pos 31⟩

lemma Inv.run (h : Hookable env mem A) (hw : Walkable env mem A) {ops : List Op}
    (hs : Inv env mem A count s) (hcount : ∀ a, count a < 2 ^ 31) (hops : ∀ op ∈ ops, op.Within A)
    (hfit : Fit count ops) : Inv env mem A (ops.foldl Op.count count) (run env s ops) := by
  induction ops generalizing count s with
  | nil => exact hs
  | cons op ops ih =>
    obtain ⟨hs', hcount'⟩ := hs.step h hw hcount (hops op (by simp)) hfit.1
    exact ih hs' hcount' (fun op' hop' => hops op' (List.mem_cons_of_mem op hop')) hfit.2

end Tracks

/-- In every run over addresses that the walk finds, with counts that fit into an `int`, the memory
is the one at the beginning with `int3` at the addresses with a positive count. -/
theorem run_patched (env : Env) (s : State) (hs : s.breakpoints = []) (A : Set UInt64)
    (h : Hookable env s.mem A) (hw : Walkable env s.mem A) (ops : List Op)
    (hops : ∀ op ∈ ops, op.Within A) (hfit : Fit (fun _ => 0) ops) :
    (run env s ops).mem = patched s.mem env.parentCr3 (nesting ops) := by
  have hinv : Inv env s.mem A (fun _ => 0) s := ⟨hs ▸ fun _ => rfl, (patched_zero _ _).symm⟩
  exact (hinv.run h hw (fun _ => Nat.two_pow_pos 31) hops hfit).mem_eq

def evenPage : PhysMem := fun a =>
  if a = 0 then 0x01 else if a = 1 then 0x10 else if a = 0x1008 then 0x81
  else if a = 0x100B then 0x40 else 0

lemma leaf_evenPage {mem : PhysMem} (h : ∀ p, p ≠ 0x40000123 → mem p = evenPage p) :
    leaf mem 0 0x40000123 = some ⟨30, 0x40000081⟩ := by
  have hpml4 : entryAt mem 0 0x40000123 39 = 0x1001 := by
    rw [entryAt, show UInt64.ofNat (field 0 12 37 + 8 * (0x40000123 / 2 ^ 39 % 2 ^ 9)) = 0 by decide]
    simp (disch := decide) only [read64, h]
    decide +kernel
  have hpml3 : entryAt mem 0x1001 0x40000123 30 = 0x40000081 := by
    rw [entryAt,
      show UInt64.ofNat (field 0x1001 12 37 + 8 * (0x40000123 / 2 ^ 30 % 2 ^ 9)) = 0x1008 by decide]
    simp (disch := decide) only [read64, h]
    decide +kernel
  rw [leaf, leaf4, hpml4, if_pos (by decide), leaf3, hpml3, if_pos (by decide), if_pos (by decide)]

def flatEnv : Env := ⟨0, fun _ => true, fun _ => true, true⟩

def nestedOps : List Op := [.insert 0x40000123, .insert 0x40000123, .remove 0x40000123]

theorem run_patched_nested : (run flatEnv ⟨evenPage, [], false⟩ nestedOps).mem =
    patched evenPage 0 (nesting nestedOps) := by
  have hleaf : leaf evenPage 0 0x40000123 = some ⟨30, 0x40000081⟩ := leaf_evenPage fun _ _ => rfl
  have hphys : physAddr evenPage 0 0x40000123 = 0x40000123 := by decide +kernel
  apply run_patched flatEnv ⟨evenPage, [], false⟩ rfl {0x40000123}
  · refine ⟨?_, Set.injOn_singleton _ _, fun _ _ => rfl, fun _ _ => rfl⟩
    rintro a rfl
    decide +kernel
  · constructor
    · rintro a rfl l hl - -
      cases hleaf.symm.trans hl
      decide
    · rintro mem' hmem a rfl
      have hleaf' : leaf mem' 0 0x40000123 = some ⟨30, 0x40000081⟩ := by
        refine leaf_evenPage fun p hp => hmem p ?_
        rintro ⟨a, rfl, rfl⟩
        exact hp hphys
      apply UInt64.toNat_inj.mp
      rw [toNat_get48PagingPhysAddr, toNat_get48PagingPhysAddr]
      exact congrArg (returned · 0x40000123) (hleaf'.trans hleaf.symm)
  · simp [nestedOps, Op.Within]
  · simp [nestedOps, Fit, Op.count]

theorem not_run_patched_gigabytePage : Hookable flatEnv gigabytePage {0x40000000} ∧
    (run flatEnv ⟨gigabytePage, [], false⟩ [.insert 0x40000000]).mem ≠
      patched gigabytePage 0 (nesting [.insert 0x40000000]) := by
  refine ⟨⟨?_, Set.injOn_singleton _ _, fun _ _ => rfl, fun _ _ => rfl⟩, ?_⟩
  · rintro a rfl
    decide +kernel
  · intro heq
    have hphys : physAddr gigabytePage 0 0x40000000 = 0x80000000 := by decide +kernel
    have hpatched : patched gigabytePage 0 (nesting [.insert 0x40000000]) 0x80000000 = 0xcc :=
      if_pos ⟨0x40000000, by decide, hphys⟩
    have hbyte := (congrFun heq 0x80000000).trans hpatched
    revert hbyte
    decide +kernel

end Nyx.Breakpoint
