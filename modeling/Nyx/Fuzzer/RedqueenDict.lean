import Nyx.Fuzzer.RedqueenEvent
import Nyx.Graph.PrimitiveMutator

/-!
# The dictionary made from redqueen reports

The operands of the comparisons become replacements, grouped by the address of the instruction. A
mutation puts one operand in the place of the other.
-/

namespace Nyx

namespace CustomDict

open MutM PrimitiveMutator Nyx.Distributions

variable {R : List UInt8 → List UInt8 → Prop} {dict : CustomDict} {b : DataBuff}

/-- No group is empty, and whatever is offered in the place of some bytes is in relation `R` to
them. -/
structure Offers (dict : CustomDict) (R : List UInt8 → List UInt8 → Prop) : Prop where
  group : ∀ group ∈ dict.groups, 0 < group.length
  entry : ∀ group ∈ dict.groups, ∀ lhs rhs, .replace lhs rhs ∈ group → R lhs rhs
  known : ∀ lhs opts, dict.lhsToGroups lhs = some opts → 0 < opts.length ∧ ∀ rhs ∈ opts, R lhs rhs

lemma offers_newFromGroups {groups : List (List DictEntry)}
    (hgroup : ∀ group ∈ groups, 0 < group.length)
    (hentry : ∀ group ∈ groups, ∀ lhs rhs, .replace lhs rhs ∈ group → R lhs rhs) :
    (newFromGroups groups).Offers R := by
  refine ⟨hgroup, hentry, ?_⟩
  refine List.foldlRecOn (motive := fun m => ∀ lhs opts, m lhs = some opts →
    0 < opts.length ∧ ∀ rhs ∈ opts, R lhs rhs) groups.flatten addEntry ?_ ?_
  · intro lhs opts h
    cases h
  rintro m hm ⟨lhs, rhs⟩ he key opts hkey
  rw [addEntry] at hkey
  by_cases hk : key = lhs
  · subst hk
    rw [Function.update_self] at hkey
    cases hkey
    refine ⟨by simp, fun rhs' hrhs => ?_⟩
    rcases List.mem_append.mp hrhs with hold | hnew
    · cases hopts : m key with
      | none => simp [hopts] at hold
      | some opts => exact (hm key opts hopts).2 rhs' (by simpa [hopts] using hold)
    · obtain ⟨group, hmem, he⟩ := List.mem_flatten.mp he
      rw [List.mem_singleton.mp hnew]
      exact hentry group hmem key rhs he
  · rw [Function.update_of_ne hk] at hkey
    exact hm key opts hkey

lemma picks_sampleRhs (h : dict.Offers R) :
    Picks b 1 dict.sampleRhs fun o => ∀ rhs, o = some rhs → R b.asSlice rhs := by
  refine (Picks.gets (P := (· = b.asSlice)) fun _ => rfl).bind ?_
  rintro _ rfl
  cases hopts : dict.lhsToGroups b.asSlice with
  | none => exact .pure nofun
  | some opts =>
    obtain ⟨hpos, hall⟩ := h.known _ _ hopts
    refine (Picks.check (decide_eq_true hpos)).bind fun _ _ =>
      Picks.element (l := 0) hpos fun rhs hrhs => .pure ?_
    rintro _ ⟨⟩
    exact hall rhs hrhs

lemma picks_sampleEntry (h : dict.Offers R) :
    Picks b 2 dict.sampleEntry fun o => ∀ lhs rhs, o = some (.replace lhs rhs) → R lhs rhs := by
  unfold sampleEntry
  split
  · exact .pure nofun
  · next hne =>
    refine Picks.element (l := 1) (Nat.pos_of_ne_zero hne) fun group hgroup =>
      Picks.element (l := 0) (h.group group hgroup) fun entry hentry => .pure ?_
    rintro lhs rhs ⟨⟩
    exact h.entry group hgroup lhs rhs hentry

lemma picks_findPos {lhs : List UInt8} (hpos : 0 < lhs.length) :
    Picks b 1 (findPos lhs) fun o => ∀ pos, o = some pos → pos + lhs.length ≤ b.used := by
  have hlen : b.asSlice.length ≤ b.used := List.length_take_le ..
  refine (Picks.gets (P := (· = b.asSlice)) fun _ => rfl).bind ?_
  rintro _ rfl
  refine (Picks.check (decide_eq_true hpos)).bind fun _ _ => ?_
  split
  · next hoffsets =>
    refine Picks.element (l := 0) hoffsets fun pos hmem => .pure ?_
    rintro _ ⟨⟩
    have hlt := List.mem_range.mp (List.mem_filter.mp hmem).1
    omega
  · refine Picks.len.bind fun n hn => ?_
    split
    · refine (Picks.draw (takes_genRange (Nat.succ_pos _))).map fun pos hlt => ?_
      rintro _ ⟨⟩
      omega
    · exact .pure nofun

/-- The bytes are left as they are, or one window of them is replaced. -/
def Patched (R : List UInt8 → List UInt8 → Prop) (b : DataBuff) (bytes : List UInt8) : Prop :=
  bytes = b.data ∨ ∃ lhs rhs pos, R lhs rhs ∧ pos + rhs.length ≤ b.used ∧
    bytes = overwrite b.data pos rhs

/-- With `k` draws left `m` returns, and what it leaves in the buffer is `Patched`. -/
def Patches (R : List UInt8 → List UInt8 → Prop) (b : DataBuff) (k : ℕ) (m : MutM Bool) : Prop :=
  ∀ d : Distributions, k ≤ d.draws.length →
    ∃ go bytes d', m.run (b, d) = (.ok go, ⟨bytes, b.used⟩, d') ∧ Patched R b bytes

lemma Patches.bind {α : Type} {k l : ℕ} {m : MutM α} {f : α → MutM Bool} {P : α → Prop}
    (hm : Picks b k m P) (hf : ∀ a, P a → Patches R b l (f a)) : Patches R b (l + k) (m >>= f) := by
  intro d hd
  rcases hm d with ⟨a, j, hj, hrun, ha⟩ | ⟨d', -, hlt⟩
  · rw [Exec.run_bind_ok hrun]
    exact hf a ha _ (by rw [List.length_drop]; omega)
  · omega

lemma patches_write {w : MutM Unit} {bytes : List UInt8} (h : Patched R b bytes)
    (hw : ∀ d, w.run (b, d) = (.ok (), ⟨bytes, b.used⟩, d)) :
    Patches R b 1 (w >>= fun _ => draw genBool) := by
  rintro ⟨_ | ⟨x, xs⟩⟩ hd
  · cases hd
  · rw [Exec.run_bind_ok (hw _)]
    exact ⟨_, bytes, ⟨xs⟩, rfl, h⟩

section Mutate

variable (h : dict.Offers R) (hR : ∀ lhs rhs, R lhs rhs → 0 < lhs.length ∧ lhs.length = rhs.length)
  (hcap : b.used ≤ b.data.length)

include hcap in
lemma patches_copyFrom {lhs rhs : List UInt8} {pos : ℕ} (hpair : R lhs rhs)
    (hpos : pos + rhs.length ≤ b.used) :
    Patches R b 1 (buff (DataBuff.copyFrom rhs pos) >>= fun _ => draw genBool) := by
  refine patches_write (.inr ⟨lhs, rhs, pos, hpair, hpos, rfl⟩) fun d => ?_
  rw [MutM.buff, Exec.run_zoom, DataBuff.run_copyFrom hpos hcap]

include h hR hcap

lemma patches_mutateEntry : Patches R b 4 dict.mutateEntry := by
  refine Patches.bind (l := 2) (picks_sampleEntry h) fun entry hentry => ?_
  rcases entry with _ | ⟨lhs, rhs⟩
  · exact fun d _ => ⟨true, b.data, d, rfl, .inl rfl⟩
  · have hpair := hentry lhs rhs rfl
    obtain ⟨hpos, hlen⟩ := hR lhs rhs hpair
    refine Patches.bind (picks_findPos hpos) fun pos hle => ?_
    cases pos with
    | none => exact patches_write (w := pure ()) (.inl rfl) fun _ => rfl
    | some pos => exact patches_copyFrom hcap hpair (hlen ▸ hle pos rfl)

lemma patches_mutate : Patches R b 6 dict.mutate := by
  refine Patches.bind (l := 5) (picks_sampleRhs h) fun rhs hrhs => ?_
  cases rhs with
  | none => exact fun d hd => patches_mutateEntry h hR hcap d (by omega)
  | some rhs =>
    refine Patches.bind (l := 4) (Picks.draw (takes_next _)) fun whole _ => ?_
    split
    · have hpair := hrhs rhs rfl
      have hlen : b.asSlice.length ≤ b.used := List.length_take_le ..
      have hfits : 0 + rhs.length ≤ b.used := by
        have := (hR _ _ hpair).2
        omega
      exact fun d hd => patches_copyFrom hcap hpair hfits d (by omega)
    · exact patches_mutateEntry h hR hcap

end Mutate

end CustomDict

namespace Redqueen

def RedqueenEvent.entries (ev : RedqueenEvent) : List DictEntry :=
  match ev.bpType with
  | .cmp | .sub => .replace ev.lhs ev.rhs :: if ev.imm then [] else [.replace ev.rhs ev.lhs]
  | .str => []

lemma RedqueenEvent.mem_entries (ev : RedqueenEvent) {lhs rhs : List UInt8}
    (h : .replace lhs rhs ∈ ev.entries) :
    lhs = ev.lhs ∧ rhs = ev.rhs ∨ lhs = ev.rhs ∧ rhs = ev.lhs := by
  grind [RedqueenEvent.entries]

/-- The groups come out of the `HashMap` in some `order` of their addresses. -/
def customDictFromRqData (order : List UInt64) (data : List RedqueenEvent) : CustomDict :=
  .newFromGroups ((order.map fun addr => (data.filter (·.addr = addr)).flatMap (·.entries)).filter
    (0 < ·.length))

/-- Whatever is drawn, a mutation returns, keeps the used length, and replaces at most one window, by
one operand of a comparison where the other operand has the same length. -/
theorem mutate_customDictFromRqData (order : List UInt64) (data : List RedqueenEvent)
    (hdata : ∀ ev ∈ data, 0 < ev.lhs.length ∧ ev.lhs.length = ev.rhs.length) (b : DataBuff)
    (hcap : b.used ≤ b.data.length) (d : Distributions) (hdraws : 6 ≤ d.draws.length) :
    ∃ go bytes d',
      (customDictFromRqData order data).mutate.run (b, d) = (.ok go, ⟨bytes, b.used⟩, d') ∧
      (bytes = b.data ∨ ∃ ev ∈ data, ∃ lhs rhs pos, .replace lhs rhs ∈ ev.entries ∧
        lhs.length = rhs.length ∧ pos + rhs.length ≤ b.used ∧
        bytes = overwrite b.data pos rhs) := by
  have hoffers : (customDictFromRqData order data).Offers fun lhs rhs =>
      ∃ ev ∈ data, .replace lhs rhs ∈ ev.entries := by
    refine CustomDict.offers_newFromGroups (fun group hgroup => ?_) fun group hgroup lhs rhs hmem => ?_
    · simpa using (List.mem_filter.mp hgroup).2
    · obtain ⟨addr, -, rfl⟩ := List.mem_map.mp (List.mem_filter.mp hgroup).1
      obtain ⟨ev, hev, hmem⟩ := List.mem_flatMap.mp hmem
      exact ⟨ev, (List.mem_filter.mp hev).1, hmem⟩
  have hR : ∀ lhs rhs, (∃ ev ∈ data, .replace lhs rhs ∈ ev.entries) →
      0 < lhs.length ∧ lhs.length = rhs.length := by
    rintro lhs rhs ⟨ev, hev, hmem⟩
    obtain ⟨hpos, hlen⟩ := hdata ev hev
    rcases ev.mem_entries hmem with ⟨rfl, rfl⟩ | ⟨rfl, rfl⟩
    · exact ⟨hpos, hlen⟩
    · exact ⟨hlen ▸ hpos, hlen.symm⟩
  obtain ⟨go, bytes, d', hrun, hbytes⟩ := CustomDict.patches_mutate hoffers hR hcap d hdraws
  refine ⟨go, bytes, d', hrun, hbytes.imp_right ?_⟩
  rintro ⟨lhs, rhs, pos, ⟨ev, hev, hmem⟩, hpos, rfl⟩
  exact ⟨ev, hev, lhs, rhs, pos, hmem, (hR lhs rhs ⟨ev, hev, hmem⟩).2, hpos, rfl⟩

def byteCompare : RedqueenEvent := ⟨0x1000, .cmp, [1, 2], [3, 4], true⟩

theorem mutate_customDictFromRqData_bytes : ∃ go bytes d',
    (customDictFromRqData [0x1000] [byteCompare]).mutate.run (⟨[7, 1, 2, 7], 3⟩, ⟨[0, 0, 0, 0, 0, 0]⟩) =
        (.ok go, ⟨bytes, 3⟩, d') ∧
      (bytes = [7, 1, 2, 7] ∨ ∃ ev ∈ [byteCompare], ∃ lhs rhs pos, .replace lhs rhs ∈ ev.entries ∧
        lhs.length = rhs.length ∧ pos + rhs.length ≤ 3 ∧ bytes = overwrite [7, 1, 2, 7] pos rhs) :=
  mutate_customDictFromRqData [0x1000] [byteCompare] (by decide) ⟨[7, 1, 2, 7], 3⟩ (by decide)
    ⟨[0, 0, 0, 0, 0, 0]⟩ (by decide)

end Redqueen

end Nyx
