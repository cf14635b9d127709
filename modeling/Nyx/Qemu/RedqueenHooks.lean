import Nyx.Qemu.Breakpoint

/-!
# The hooks of redqueen

A word for each address holds its flags above the traps of a session. Whether the address is armed
again is decided by what `redqueen_update_addr_count` returns: the flags, not the count.
-/

namespace Nyx.RedqueenHooks

open Breakpoint (Op)

def REDQUEEN_TRAP_LIMIT : UInt32 := 16

def CMP_BITMAP_RQ_INSTRUCTION : UInt32 := 0x1000000

def CMP_BITMAP_BLACKLISTED : UInt32 := 0x4000000

def CMP_BITMAP_SHOULD_HOOK_RQ : UInt32 := CMP_BITMAP_RQ_INSTRUCTION

inductive InstrumentationMode where
  | no
  | light
  | se
  | whitelist

/-- `redqueen_t`, as far as hooks are concerned. `lookup` is the content of the hash table. -/
structure Redqueen where
  lookup : List (UInt64 × UInt32)
  hooksApplied : Bool
  lastRip : UInt64
  nextRip : UInt64
  breakpointWhitelist : List UInt64

namespace Redqueen

def newRqState : Redqueen := ⟨[], false, 0, 0, []⟩

variable (self : Redqueen)

def redqueenCheckAddr (addr : UInt64) : Bool := self.lookup.any (·.1 == addr)

def value (addr : UInt64) : UInt32 := (self.lookup.find? (·.1 == addr)).elim 0 (·.2)

/-- `kh_put` for an address that may be in the table. -/
def put (addr : UInt64) : Redqueen :=
  if self.redqueenCheckAddr addr then self else { self with lookup := self.lookup ++ [(addr, 0)] }

def modify (addr : UInt64) (f : UInt32 → UInt32) : Redqueen :=
  { self with lookup := self.lookup.map fun x => if x.1 = addr then (x.1, f x.2) else x }

def redqueenSetAddrFlags (addr : UInt64) (flags : UInt32) : Redqueen :=
  (self.put addr).modify addr (· ||| flags)

def redqueenCheckAddrFlags (addr : UInt64) (flags : UInt32) : Bool :=
  self.redqueenCheckAddr addr && self.value addr &&& flags != 0

def redqueenUpdateAddrCount (addr : UInt64) : UInt32 × Redqueen :=
  let self := (self.put addr).modify addr (· + 1)
  (self.value addr &&& 0xFF000000, self)

def setRqInstruction (addr : UInt64) : Redqueen :=
  if !self.redqueenCheckAddrFlags addr CMP_BITMAP_BLACKLISTED then
    self.redqueenSetAddrFlags addr CMP_BITMAP_RQ_INSTRUCTION
  else self

def setRqBlacklist (addr : UInt64) : Redqueen :=
  self.redqueenSetAddrFlags addr CMP_BITMAP_BLACKLISTED

def insertHooksWhitelist : List Op := self.breakpointWhitelist.map .insert

def insertHooksBitmap (light : Bool) : List Op :=
  ((self.lookup.map (·.1)).filter fun addr =>
    !self.redqueenCheckAddrFlags addr CMP_BITMAP_BLACKLISTED &&
      (light && self.redqueenCheckAddrFlags addr CMP_BITMAP_SHOULD_HOOK_RQ)).map .insert

/-- The calls of breakpoint functions that are made, and the state. A failed assertion gives
nothing. -/
def redqueenInsertHooks (mode : InstrumentationMode) : Option (List Op × Redqueen) :=
  if self.hooksApplied then none
  else
    match mode with
    | .light => some (self.insertHooksBitmap true, { self with hooksApplied := true })
    | .whitelist => some (self.insertHooksWhitelist, { self with hooksApplied := true })
    | .no => some ([], { self with hooksApplied := true })
    | .se => none

def redqueenRemoveHooks : Option (List Op × Redqueen) :=
  if self.hooksApplied then
    some ([.removeAll], { self with
      lookup := self.lookup.map fun x => (x.1, x.2 &&& 0xFF000000)
      hooksApplied := false })
  else none

end Redqueen

/-- The guest stops at `eip`, at an instruction that can be decoded: `handle_hook_breakpoint` returns
its size. -/
structure HookEvent where
  eip : UInt64
  insSize : UInt8
  insSize_ne : insSize ≠ 0

namespace Redqueen

variable (self : Redqueen)

/-- The first part of `handle_hook`: what is left to do for the trap before. -/
def settleHook : List Op × Redqueen :=
  if self.nextRip ≠ 0 then
    if self.lastRip ≠ 0 then
      let (value, counted) := self.redqueenUpdateAddrCount self.lastRip
      (.remove self.nextRip :: if value < REDQUEEN_TRAP_LIMIT then [.insert self.lastRip] else [],
        { counted with lastRip := 0, nextRip := 0 })
    else ([.remove self.nextRip], { self with lastRip := 0, nextRip := 0 })
  else ([], self)

def handleHook (e : HookEvent) : List Op × Redqueen :=
  let (calls, self) := self.settleHook
  if self.redqueenCheckAddr e.eip then
    (calls ++ [.remove e.eip], { self with lastRip := e.eip, nextRip := e.insSize.toUInt64 })
  else (calls, self)

def after (events : List HookEvent) : Redqueen := events.foldl (fun self e => (self.handleHook e).2) self

/-- The traps that are counted in a session: those of its events, and one that is still open. -/
def traps (events : List HookEvent) : ℕ :=
  (if self.nextRip = 0 then 0 else 1) + events.countP fun e => self.redqueenCheckAddr e.eip

inductive Reachable : Redqueen → Prop
  | new : Reachable newRqState
  | instruction {self : Redqueen} (addr : UInt64) : Reachable self →
      Reachable (self.setRqInstruction addr)
  | blacklist {self : Redqueen} (addr : UInt64) : Reachable self →
      Reachable (self.setRqBlacklist addr)
  | whitelist {self : Redqueen} (addrs : List UInt64) : Reachable self →
      Reachable { self with breakpointWhitelist := addrs }
  | session {self self' self'' : Redqueen} {mode : InstrumentationMode} {calls calls' : List Op}
      {events : List HookEvent} : Reachable self →
      self.redqueenInsertHooks mode = some (calls, self') → self'.traps events < 2 ^ 24 →
      (self'.after events).redqueenRemoveHooks = some (calls', self'') → Reachable self''

def flagBits : List (UInt64 × UInt32) := self.lookup.map fun x => (x.1, x.2 &&& 0xFF000000)

/-- With every event after a trap, the address of the trap is armed again exactly if the events so
far have trapped there less often than the limit. -/
def RearmsBelowLimit (events : List HookEvent) : Prop :=
  ∀ pre e post, events = pre ++ e :: post → (self.after pre).nextRip ≠ 0 →
    (.insert (self.after pre).lastRip ∈ ((self.after pre).handleHook e).1 ↔
      (pre.countP fun e => e.eip == (self.after pre).lastRip) < REDQUEEN_TRAP_LIMIT.toNat)

def Undecided (events : List HookEvent) : Prop :=
  (events ≠ [] → self.nextRip = 0) ∧ ∀ e ∈ events.dropLast, self.redqueenCheckAddr e.eip = false

end Redqueen

/-! ### Flags and counts -/

lemma toNat_flags (v : UInt32) : (v &&& 0xFF000000).toNat = v.toNat / 2 ^ 24 * 2 ^ 24 := by
  have hmask : (0xFF000000 : UInt32).toNat = (2 ^ 8 - 1) * 2 ^ 24 := by decide
  have hlt := v.toNat_lt
  rw [UInt32.toNat_and, hmask, and_mask, field, Nat.mod_eq_of_lt (by omega)]

namespace Redqueen

/-- Every address has flags, and `n` more traps do not reach them. -/
structure Valid (n : ℕ) (r : Redqueen) : Prop where
  flags : ∀ x ∈ r.lookup, x.2.toNat / 2 ^ 24 ≠ 0
  count : ∀ x ∈ r.lookup, x.2.toNat % 2 ^ 24 + n < 2 ^ 24
  pending : r.nextRip ≠ 0 → r.redqueenCheckAddr r.lastRip = true

variable {self : Redqueen} {n : ℕ}

lemma redqueenCheckAddr_eq_flagBits (self : Redqueen) (addr : UInt64) :
    self.redqueenCheckAddr addr = self.flagBits.any (·.1 == addr) := by
  rw [flagBits, List.any_map]
  rfl

lemma redqueenCheckAddr_congr {self' : Redqueen} (h : self'.flagBits = self.flagBits)
    (addr : UInt64) : self'.redqueenCheckAddr addr = self.redqueenCheckAddr addr := by
  rw [redqueenCheckAddr_eq_flagBits, redqueenCheckAddr_eq_flagBits, h]

lemma redqueenCheckAddr_modify (self : Redqueen) (addr : UInt64) (f : UInt32 → UInt32) (a : UInt64) :
    (self.modify addr f).redqueenCheckAddr a = self.redqueenCheckAddr a := by
  rw [redqueenCheckAddr, modify, List.any_map]
  apply congrArg self.lookup.any
  funext x
  rw [Function.comp_apply]
  split <;> rfl

lemma flags_add_one {v : UInt32} (h : v.toNat % 2 ^ 24 + 1 < 2 ^ 24) :
    (v + 1).toNat = v.toNat + 1 ∧ (v + 1) &&& 0xFF000000 = v &&& 0xFF000000 := by
  have hlt := v.toNat_lt
  have hadd : (v + 1).toNat = v.toNat + 1 := by
    rw [UInt32.toNat_add, UInt32.toNat_one]
    omega
  rw [← UInt32.toNat_inj, toNat_flags, toNat_flags, hadd]
  omega

lemma Valid.updateAddrCount (h : Valid (n + 1) self) {addr : UInt64}
    (haddr : self.redqueenCheckAddr addr) :
    ¬(self.redqueenUpdateAddrCount addr).1 < REDQUEEN_TRAP_LIMIT ∧
      (self.redqueenUpdateAddrCount addr).2.flagBits = self.flagBits ∧
      Valid n { (self.redqueenUpdateAddrCount addr).2 with lastRip := 0, nextRip := 0 } := by
  have hput : self.put addr = self := if_pos haddr
  rw [redqueenUpdateAddrCount, hput]
  have hentry : ∀ x ∈ (self.modify addr (· + 1)).lookup, x.2.toNat / 2 ^ 24 ≠ 0 ∧
      x.2.toNat % 2 ^ 24 + n < 2 ^ 24 := by
    intro x hx
    obtain ⟨y, hy, rfl⟩ := List.mem_map.mp hx
    have hflags := h.flags y hy
    have hcount := h.count y hy
    split
    · have hadd := (flags_add_one (v := y.2) (by omega)).1
      simp only [hadd]
      omega
    · omega
  have hflags : (self.modify addr (· + 1)).flagBits = self.flagBits := by
    rw [flagBits, flagBits, modify, List.map_map, List.map_inj_left]
    intro x hx
    have hcount := h.count x hx
    rw [Function.comp_apply]
    split
    · simp only [(flags_add_one (v := x.2) (by omega)).2]
    · rfl
  refine ⟨?_, hflags, fun x hx => (hentry x hx).1, fun x hx => (hentry x hx).2, fun hne => absurd rfl hne⟩
  -- the address is found with its flags
  have hfound : ((self.modify addr (· + 1)).lookup.find? (·.1 == addr)).isSome = true := by
    rw [List.isSome_find?, ← haddr]
    exact redqueenCheckAddr_congr hflags addr
  obtain ⟨x, hx⟩ := Option.isSome_iff_exists.mp hfound
  have hvalue : (self.modify addr (· + 1)).value addr = x.2 := by rw [value, hx, Option.elim_some]
  have hne := (hentry x (List.mem_of_find?_eq_some hx)).1
  rw [hvalue, UInt32.lt_iff_toNat_lt, toNat_flags]
  have hlimit : REDQUEEN_TRAP_LIMIT.toNat = 16 := rfl
  omega

lemma Valid.settleHook (h : Valid ((if self.nextRip = 0 then 0 else 1) + n) self) :
    (∀ addr, .insert addr ∉ self.settleHook.1) ∧ self.settleHook.2.flagBits = self.flagBits ∧
      Valid n self.settleHook.2 ∧ self.settleHook.2.nextRip = 0 := by
  unfold Redqueen.settleHook
  by_cases hnext : self.nextRip = 0
  · rw [if_pos hnext, Nat.zero_add] at h
    rw [if_neg (not_not.mpr hnext)]
    exact ⟨fun _ => List.not_mem_nil, rfl, h, hnext⟩
  rw [if_neg hnext, Nat.add_comm] at h
  rw [if_pos hnext]
  split
  · obtain ⟨hlimit, hflags, hvalid⟩ := h.updateAddrCount (h.pending hnext)
    simp only [hlimit, if_false]
    exact ⟨by simp, hflags, hvalid, trivial⟩
  · refine ⟨by simp, rfl, ⟨h.flags, fun x hx => ?_, fun hne => absurd rfl hne⟩, rfl⟩
    exact Nat.lt_of_succ_lt (h.count x hx)

lemma Valid.handleHook {e : HookEvent} {rest : List HookEvent}
    (h : Valid (self.traps (e :: rest)) self) :
    (∀ addr, .insert addr ∉ (self.handleHook e).1) ∧
      (self.handleHook e).2.flagBits = self.flagBits ∧
      Valid ((self.handleHook e).2.traps rest) (self.handleHook e).2 := by
  obtain ⟨hcalls, hflags, hvalid, hnext⟩ := h.settleHook
  have hsame := redqueenCheckAddr_congr hflags
  have hcount : ∀ r : Redqueen, r.flagBits = self.flagBits →
      (rest.countP fun e => r.redqueenCheckAddr e.eip) =
        rest.countP fun e => self.redqueenCheckAddr e.eip := by
    intro r hr
    simp only [redqueenCheckAddr_congr hr]
  unfold Redqueen.handleHook
  dsimp only
  rw [hsame]
  split
  · next htrap =>
    refine ⟨by simpa using hcalls, hflags, hvalid.flags, fun x hx => ?_, fun _ => ?_⟩
    · have := hvalid.count x hx
      rw [List.countP_cons, if_pos htrap] at this
      dsimp only [traps]
      rw [hcount { self.settleHook.2 with lastRip := e.eip, nextRip := _ } hflags]
      split <;> omega
    · exact (hsame e.eip).trans htrap
  · next htrap =>
    refine ⟨hcalls, hflags, ?_⟩
    rw [List.countP_cons, if_neg htrap] at hvalid
    rwa [traps, hcount _ hflags, if_pos hnext, Nat.zero_add]

lemma Valid.after {events : List HookEvent} (h : Valid (self.traps events) self) :
    (self.after events).flagBits = self.flagBits ∧
      Valid ((self.after events).traps []) (self.after events) := by
  induction events generalizing self with
  | nil => exact ⟨rfl, h⟩
  | cons e events ih =>
    obtain ⟨-, hflags, hvalid⟩ := h.handleHook
    obtain ⟨hflags', hvalid'⟩ := ih hvalid
    exact ⟨hflags'.trans hflags, hvalid'⟩

lemma handleHook_of_idle (hnext : self.nextRip = 0) {e : HookEvent}
    (htrap : self.redqueenCheckAddr e.eip = false) : self.handleHook e = ([], self) := by
  have hsettle : self.settleHook = ([], self) := if_neg (not_not.mpr hnext)
  rw [handleHook, hsettle]
  exact if_neg (ne_true_of_eq_false htrap)

lemma after_of_idle (hnext : self.nextRip = 0) {events : List HookEvent}
    (htraps : ∀ e ∈ events, self.redqueenCheckAddr e.eip = false) : self.after events = self := by
  induction events with
  | nil => rfl
  | cons e events ih =>
    rw [after, List.foldl_cons, handleHook_of_idle hnext (htraps e (by simp))]
    exact ih fun e' he' => htraps e' (List.mem_cons_of_mem e he')

lemma Valid.exists_decision {events : List HookEvent} (h : Valid (self.traps events) self)
    (hdecided : ¬self.Undecided events) :
    ∃ pre e post, events = pre ++ e :: post ∧ (self.after pre).nextRip ≠ 0 ∧
      self.redqueenCheckAddr (self.after pre).lastRip ∧
      (pre.countP fun e => e.eip == (self.after pre).lastRip) ≤ 1 ∧
      ∀ addr, .insert addr ∉ ((self.after pre).handleHook e).1 := by
  induction events with
  | nil => exact absurd ⟨fun hne => absurd rfl hne, by simp⟩ hdecided
  | cons e events ih =>
    by_cases hnext : self.nextRip = 0
    swap
    · exact ⟨[], e, events, rfl, hnext, h.pending hnext, Nat.zero_le 1, h.handleHook.1⟩
    cases htrap : self.redqueenCheckAddr e.eip with
    | true =>
      have hhook : (self.handleHook e).2 =
          { self with lastRip := e.eip, nextRip := e.insSize.toUInt64 } := by
        have hsettle : self.settleHook = ([], self) := if_neg (not_not.mpr hnext)
        rw [Redqueen.handleHook, hsettle]
        exact congrArg Prod.snd (if_pos htrap)
      cases events with
      | nil => exact absurd ⟨fun _ => hnext, by simp⟩ hdecided
      | cons e' post =>
        refine ⟨[e], e', post, rfl, ?_, ?_, List.countP_le_length, h.handleHook.2.2.handleHook.1⟩
        · show (self.handleHook e).2.nextRip ≠ 0
          rw [hhook]
          simpa [← UInt8.toNat_inj, ← UInt64.toNat_inj] using e.insSize_ne
        · show self.redqueenCheckAddr (self.handleHook e).2.lastRip = true
          rw [hhook]
          exact htrap
    | false =>
      have hhook := handleHook_of_idle hnext htrap
      have hvalid := h.handleHook.2.2
      rw [hhook] at hvalid
      obtain ⟨pre, e', post, rfl, hne, hmine, hcount, hcalls⟩ := ih hvalid fun hrest => by
        refine hdecided ⟨fun _ => hnext, fun e'' he'' => ?_⟩
        cases events with
        | nil => cases he''
        | cons _ _ =>
          rcases List.mem_cons.mp he'' with rfl | he''
          · exact htrap
          · exact hrest.2 e'' he''
      have hafter : self.after (e :: pre) = self.after pre := by
        rw [Redqueen.after, List.foldl_cons, hhook]
        rfl
      refine ⟨e :: pre, e', post, rfl, ?_⟩
      rw [hafter, List.countP_cons, if_neg]
      · exact ⟨hne, hmine, hcount, hcalls⟩
      · intro heq
        rw [eq_of_beq heq, hmine] at htrap
        cases htrap

/-- No hook has been hit. -/
structure Fresh (r : Redqueen) : Prop where
  entry : ∀ x ∈ r.lookup, x.2.toNat / 2 ^ 24 ≠ 0 ∧ x.2.toNat % 2 ^ 24 = 0
  pending : r.nextRip ≠ 0 → r.redqueenCheckAddr r.lastRip = true

lemma Fresh.valid (h : Fresh self) (hn : n < 2 ^ 24) : Valid n self where
  flags x hx := (h.entry x hx).1
  count x hx := by
    rw [(h.entry x hx).2]
    omega
  pending := h.pending

lemma Fresh.setAddrFlags (h : Fresh self) (addr : UInt64) {flags : UInt32}
    (hflags : flags.toNat / 2 ^ 24 ≠ 0) (hlow : flags.toNat % 2 ^ 24 = 0) :
    Fresh (self.redqueenSetAddrFlags addr flags) := by
  have hor : ∀ v : UInt32, v.toNat % 2 ^ 24 = 0 →
      (v ||| flags).toNat / 2 ^ 24 ≠ 0 ∧ (v ||| flags).toNat % 2 ^ 24 = 0 := by
    intro v hv
    have hle : flags.toNat ≤ v.toNat ||| flags.toNat := Nat.right_le_or
    rw [UInt32.toNat_or, Nat.or_mod_two_pow, hv, hlow]
    exact ⟨by omega, rfl⟩
  have hput : (∀ x ∈ (self.put addr).lookup, x ∈ self.lookup ∨ x = (addr, 0)) ∧
      ((self.put addr).nextRip ≠ 0 →
        (self.put addr).redqueenCheckAddr (self.put addr).lastRip = true) := by
    unfold put
    split
    · exact ⟨fun x hx => .inl hx, h.pending⟩
    · refine ⟨by simp, fun hnext => ?_⟩
      rw [redqueenCheckAddr, List.any_append]
      exact Bool.or_eq_true_iff.mpr (.inl (h.pending hnext))
  constructor
  · intro x hx
    obtain ⟨y, hy, rfl⟩ := List.mem_map.mp hx
    rcases hput.1 y hy with hy | rfl
    · split
      · exact hor y.2 (h.entry y hy).2
      · exact h.entry y hy
    · rw [if_pos rfl]
      exact hor 0 rfl
  · intro hnext
    exact (redqueenCheckAddr_modify ..).trans (hput.2 hnext)

lemma Fresh.insertHooks (h : Fresh self) {mode : InstrumentationMode} {calls : List Op}
    {self' : Redqueen} (hinsert : self.redqueenInsertHooks mode = some (calls, self')) :
    Fresh self' := by
  unfold redqueenInsertHooks at hinsert
  split at hinsert
  · cases hinsert
  split at hinsert
  case h_4 => cases hinsert
  all_goals
    cases hinsert
    exact ⟨h.entry, h.pending⟩

lemma Valid.removeHooks (h : Valid n self) {calls : List Op} {self' : Redqueen}
    (hremove : self.redqueenRemoveHooks = some (calls, self')) : Fresh self' := by
  unfold redqueenRemoveHooks at hremove
  split at hremove
  · cases hremove
    refine ⟨fun x hx => ?_, fun hnext => ?_⟩
    · obtain ⟨y, hy, rfl⟩ := List.mem_map.mp hx
      have hne := h.flags y hy
      simp only [toNat_flags]
      omega
    · rw [← h.pending hnext]
      exact (redqueenCheckAddr_eq_flagBits self self.lastRip).symm
  · cases hremove

lemma Reachable.fresh (h : Reachable self) : Fresh self := by
  induction h with
  | new => exact ⟨by simp [newRqState], by simp [newRqState]⟩
  | instruction addr _ ih =>
    unfold setRqInstruction
    split
    · exact ih.setAddrFlags addr (by decide) (by decide)
    · exact ih
  | blacklist addr _ ih => exact ih.setAddrFlags addr (by decide) (by decide)
  | whitelist _ _ ih => exact ⟨ih.entry, ih.pending⟩
  | session _ hinsert htraps hremove ih =>
    exact ((ih.insertHooks hinsert).valid htraps).after.2.removeHooks hremove

/-- In every session with fewer than `2 ^ 24` traps the flags stay as they are. The hooked addresses
are armed again below the limit exactly if no event comes after a trap. -/
theorem rearms_iff (h : Reachable self) {mode : InstrumentationMode} {calls : List Op}
    {self' : Redqueen} (hinsert : self.redqueenInsertHooks mode = some (calls, self'))
    (events : List HookEvent) (htraps : self'.traps events < 2 ^ 24) :
    (self'.RearmsBelowLimit events ↔ self'.Undecided events) ∧
      (self'.after events).flagBits = self'.flagBits := by
  have hvalid := (h.fresh.insertHooks hinsert).valid htraps
  refine ⟨⟨fun hrearms => ?_, fun hundecided => ?_⟩, hvalid.after.1⟩
  · by_contra hdecided
    obtain ⟨pre, e, post, hevents, hnext, -, hcount, hcalls⟩ := hvalid.exists_decision hdecided
    refine hcalls _ ((hrearms pre e post hevents hnext).mpr ?_)
    exact hcount.trans_lt (by decide)
  · intro pre e post hevents hnext
    subst hevents
    have hidle : self'.nextRip = 0 := hundecided.1 (by simp)
    rw [after_of_idle hidle fun e' he' => hundecided.2 e' ?_] at hnext
    · exact absurd hidle hnext
    · rw [List.dropLast_append_of_ne_nil (by simp)]
      exact List.mem_append_left _ he'

def oneHook : Redqueen := { newRqState.setRqInstruction 0x1000 with hooksApplied := true }

def eventAt (eip : UInt64) : HookEvent := ⟨eip, 3, by decide⟩

theorem rearms_iff_oneTrap :
    (oneHook.RearmsBelowLimit [eventAt 0x2000, eventAt 0x1000] ↔
      oneHook.Undecided [eventAt 0x2000, eventAt 0x1000]) ∧
    (oneHook.after [eventAt 0x2000, eventAt 0x1000]).flagBits = oneHook.flagBits := by
  have hinsert : (newRqState.setRqInstruction 0x1000).redqueenInsertHooks .light =
      some ([.insert 0x1000], oneHook) := rfl
  exact rearms_iff (Reachable.new.instruction 0x1000) hinsert _ (by decide)

theorem not_rearms_twoTraps : Reachable (newRqState.setRqInstruction 0x1000) ∧
    (newRqState.setRqInstruction 0x1000).redqueenInsertHooks .light =
      some ([.insert 0x1000], oneHook) ∧
    ¬oneHook.RearmsBelowLimit [eventAt 0x1000, eventAt 0x1000] := by
  refine ⟨Reachable.new.instruction 0x1000, rfl, fun hrearms => ?_⟩
  have hinsert := (hrearms [eventAt 0x1000] (eventAt 0x1000) [] rfl (by decide)).mpr (by decide)
  revert hinsert
  decide

end Redqueen

end Nyx.RedqueenHooks
