import Nyx.Pt.ModeIsolation
import Nyx.Pt.SweepInvariant

/-!
# Which code an element stands for

The map keeps 32 bits of the address of an instruction. Here the entries that `analyse_assembly`
makes are written down with the whole address, and compared with what `get_obj` returns.
-/

namespace Nyx.Pt

abbrev RunEntry := UInt64 × Ref

section Entries

variable (img : Image) (filter : AddrFilter)

namespace Sweep

def after (limit : UInt64) (s : Sweep) : Sweep :=
  match s.step img limit with
  | .inl t => t
  | .inr t => t

def entered (limit : UInt64) (s : Sweep) : List RunEntry :=
  match img s.address with
  | .insn _ =>
    if s.address > limit ∨ (s.dis.mapGet s.address).isSome then []
    else [(s.address, (s.after img limit).dis.listElement)]
  | _ => []

def entries (limit : UInt64) : ℕ → Sweep → List RunEntry
  | 0, _ => []
  | n + 1, s =>
    s.entered img limit ++
      match s.step img limit with
      | .inl t => entries limit n t
      | .inr _ => []

end Sweep

def objEntries (d : CofiMap) (entryPoint : UInt64) : List RunEntry :=
  match d.mapGet entryPoint with
  | some _ => []
  | none =>
    match [filter 0, filter 1, filter 2, filter 3].find? (·.contains entryPoint) with
    | some range =>
      Sweep.entries img range.max Sweep.rounds ⟨d, entryPoint, false, none, none, unset, 0⟩
    | none => []

/-- `d` came about by calls of `get_obj` that made these entries, with links written in between. -/
inductive Analysed : CofiMap → List RunEntry → Prop
  | new : Analysed CofiMap.new []
  | getObj {d : CofiMap} {runs : List RunEntry} (h : Analysed d runs) (a : UInt64) :
    Analysed (getObj img filter d a).dis (runs ++ objEntries img filter d a)
  | setCofiPtr {d : CofiMap} {runs : List RunEntry} (h : Analysed d runs) (r target : Ref) :
    Analysed (d.setCofiPtr r target) runs
  | setCofiTargetPtr {d : CofiMap} {runs : List RunEntry} (h : Analysed d runs) (r target : Ref) :
    Analysed (d.setCofiTargetPtr r target) runs

/-- If `get_obj` returns an element for `a`, then `a` is in the run of the element. -/
def Exact (d : CofiMap) (runs : List RunEntry) (a : UInt64) : Prop :=
  ∀ n, (getObj img filter d a).obj = .element n →
    (a, .element n) ∈ runs ++ objEntries img filter d a

end Entries

/-! ### The map and the entries -/

/-- The map holds the entries by the lower half of their addresses, one for each key. -/
structure Logged (d : CofiMap) (runs : List RunEntry) : Prop where
  mapped : ∀ k r, d.map k = some r ↔ ∃ a, (a, r) ∈ runs ∧ mapKey a = k
  unique : ∀ e ∈ runs, ∀ e' ∈ runs, mapKey e.1 = mapKey e'.1 → e = e'
  element : ∀ e ∈ runs, ∃ n, e.2 = .element n
  last : ∃ n, d.listElement = .element n

namespace Logged

variable {d e : CofiMap} {runs : List RunEntry}

lemma new : Logged CofiMap.new [] :=
  ⟨by simp [CofiMap.new], by simp, by simp, 0, rfl⟩

lemma write (h : Logged d runs) (hmap : e.map = d.map) (hlast : ∃ n, e.listElement = .element n) :
    Logged e runs := by
  refine ⟨fun k r => ?_, h.unique, h.element, hlast⟩
  rw [hmap]
  exact h.mapped k r

lemma mapGet_of_mem (h : Logged d runs) {a : UInt64} {r : Ref} (hmem : (a, r) ∈ runs) {b : UInt64}
    (hkey : mapKey a = mapKey b) : d.mapGet b = some r :=
  (h.mapped (mapKey b) r).mpr ⟨a, hmem, hkey⟩

lemma put (h : Logged d runs) {a : UInt64} {r : Ref} (hnone : d.mapGet a = none)
    (hmap : e.map = (d.mapPut a r).map) (hr : ∃ n, r = .element n)
    (hlast : ∃ n, e.listElement = .element n) : Logged e (runs ++ [(a, r)]) := by
  have hfresh : ∀ x ∈ runs, mapKey x.1 ≠ mapKey a := by
    intro x hx hkey
    rw [h.mapGet_of_mem (a := x.1) (r := x.2) hx hkey] at hnone
    cases hnone
  constructor
  · intro k q
    rw [hmap]
    by_cases hk : k = mapKey a
    · subst hk
      rw [CofiMap.map_mapPut_self, Option.some.injEq]
      constructor
      · rintro rfl
        exact ⟨a, by simp, rfl⟩
      · rintro ⟨b, hb, hkey⟩
        rcases List.mem_append.mp hb with hb | hb
        · exact absurd hkey (hfresh _ hb)
        · simp only [List.mem_singleton, Prod.mk.injEq] at hb
          exact hb.2.symm
    · rw [CofiMap.map_mapPut_of_ne d r hk, h.mapped]
      constructor
      · rintro ⟨b, hb, hkey⟩
        exact ⟨b, List.mem_append_left _ hb, hkey⟩
      · rintro ⟨b, hb, hkey⟩
        rcases List.mem_append.mp hb with hb | hb
        · exact ⟨b, hb, hkey⟩
        · simp only [List.mem_singleton, Prod.mk.injEq] at hb
          rw [hb.1] at hkey
          exact absurd hkey.symm hk
  · intro x hx y hy hkey
    rcases List.mem_append.mp hx with hx | hx
    · rcases List.mem_append.mp hy with hy | hy
      · exact h.unique x hx y hy hkey
      · rw [List.mem_singleton] at hy
        subst hy
        exact absurd hkey (hfresh x hx)
    · rw [List.mem_singleton] at hx
      subst hx
      rcases List.mem_append.mp hy with hy | hy
      · exact absurd hkey.symm (hfresh y hy)
      · exact (List.mem_singleton.mp hy).symm
  · intro x hx
    rcases List.mem_append.mp hx with hx | hx
    · exact h.element x hx
    · rw [List.mem_singleton.mp hx]
      exact hr
  · exact hlast

end Logged

/-! ### Sweeps -/

section Sweeps

variable {img : Image} {filter : AddrFilter} {limit : UInt64}

/-- The visit has entered `addr` into the map. -/
structure Enters (s : Sweep) (addr : UInt64) (t : Sweep) : Prop where
  fresh : s.dis.mapGet addr = none
  map : t.dis.map = (s.dis.mapPut addr t.dis.listElement).map
  last : ∃ n, t.dis.listElement = .element n
  first : t.first = some (s.first.getD t.dis.listElement)

/-- The visit has not changed the map. -/
structure Keeps (s t : Sweep) : Prop where
  map : t.dis.map = s.dis.map
  last : ∃ n, t.dis.listElement = .element n
  first : t.first = s.first

lemma Keeps.enters {s o t : Sweep} {addr : UInt64} (h : Keeps s o) (ht : Enters o addr t) :
    Enters s addr t := by
  obtain ⟨hfresh, hmap, hlast, hfirst⟩ := ht
  refine ⟨?_, ?_, hlast, h.first ▸ hfirst⟩
  · rw [CofiMap.mapGet, ← h.map]
    exact hfresh
  · rw [hmap]
    simp only [CofiMap.mapPut, h.map]

namespace Sweep

variable {s : Sweep} {addr : UInt64}

lemma keeps_opened (hlast : ∃ n, s.dis.listElement = .element n) (addr : UInt64) (ins : CsInsn) :
    Keeps s (s.opened addr ins) := by
  unfold opened
  split
  · exact ⟨rfl, hlast, rfl⟩
  · exact ⟨CofiMap.map_append _ _ _ _, ⟨s.dis.allocated, by simp [append]⟩, rfl⟩

lemma keeps_linkKnown (s : Sweep) (addr : UInt64) (known : Ref) :
    Keeps s (s.linkKnown addr known) :=
  ⟨CofiMap.map_append _ _ _ _,
    ⟨s.dis.allocated, by simp [linkKnown, append, CofiMap.setCofiPtr]⟩, rfl⟩

variable (hlast : ∃ n, s.dis.listElement = .element n)
include hlast

section

variable (hnone : s.dis.mapGet addr = none)
include hnone

lemma enters_addNoCofi : Enters s addr (s.addNoCofi addr) :=
  ⟨hnone, rfl, hlast, first_setFirst _⟩

lemma enters_addBranch (ins : CsInsn) : Enters s addr (s.addBranch addr ins) :=
  ⟨hnone, rfl, hlast, first_setFirst _⟩

lemma enters_addTransfer (ins : CsInsn) : Enters s addr (s.addTransfer addr ins) := by
  unfold addTransfer
  split
  · unfold addTransferAfterNoCofi
    dsimp only
    generalize hd : CofiMap.newListElement _ _ = d
    have hmap : d.map = s.dis.map := hd ▸ rfl
    have hlist : d.listElement = .element s.dis.allocated := hd ▸ rfl
    generalize CofiMap.mapGet _ s.lastNoCofiAddr = p
    have hedit : ∀ e : CofiMap, (e.editCofiPtr p d.listElement).map = e.map ∧
        (e.editCofiPtr p d.listElement).listElement = e.listElement := by
      intro e
      cases p <;> exact ⟨rfl, rfl⟩
    refine ⟨hnone, ?_, ⟨s.dis.allocated, (hedit _).2.trans hlist⟩, first_setFirst _⟩
    calc _ = (d.mapPut addr d.listElement).map := (hedit _).1
      _ = _ := by
        simp only [CofiMap.mapPut, hmap, setFirst, (hedit _).2]
  · exact ⟨hnone, rfl, hlast, first_setFirst _⟩

end

lemma visit_cases (addr : UInt64) (ins : CsInsn) :
    ((s.dis.mapGet addr).isSome ∧ ∃ t, s.visit addr ins = .inr t ∧ Keeps s t) ∨
      ∃ t, (s.visit addr ins = .inl t ∨ s.visit addr ins = .inr t) ∧ Enters s addr t := by
  have hopened := keeps_opened hlast addr ins
  have hvisited := visited s addr ins
  generalize s.visit addr ins = r at hvisited
  cases hvisited with
  | @known known hget =>
    left
    have hlink := keeps_linkKnown (s.opened addr ins) addr known
    refine ⟨?_, _, rfl, hlink.map.trans hopened.map, hlink.last, hlink.first.trans hopened.first⟩
    rw [CofiMap.mapGet, ← hopened.map]
    exact Option.isSome_iff_exists.mpr ⟨known, hget⟩
  | plain hget => exact .inr ⟨_, .inl rfl, hopened.enters (enters_addNoCofi hopened.last hget)⟩
  | branch hget => exact .inr ⟨_, .inl rfl, hopened.enters (enters_addBranch hopened.last hget ins)⟩
  | transfer hget =>
    exact .inr ⟨_, .inr rfl, hopened.enters (enters_addTransfer hopened.last hget ins)⟩

end Sweep

/-- The entries so far, when a sweep from `base` comes to an instruction or has ended. -/
structure SweepLogged (base : UInt64) (runs : List RunEntry) (s : Sweep) : Prop where
  logged : Logged s.dis runs
  first : ∀ f, s.first = some f → (base, f) ∈ runs

namespace SweepLogged

variable {base : UInt64} {runs : List RunEntry} {s t : Sweep}

variable (h : SweepLogged base runs s)
include h

lemma keeps (hkeeps : Keeps s t) : SweepLogged base runs t :=
  ⟨h.logged.write hkeeps.map hkeeps.last, fun f hf => h.first f (hkeeps.first ▸ hf)⟩

lemma enters {addr : UInt64} (hstart : s.first = none → addr = base)
    (henters : Enters s addr t) : SweepLogged base (runs ++ [(addr, t.dis.listElement)]) t := by
  refine ⟨h.logged.put henters.fresh henters.map henters.last henters.last, fun f hf => ?_⟩
  rw [henters.first, Option.some.injEq] at hf
  cases hfirst : s.first with
  | none =>
    rw [hfirst, Option.getD_none] at hf
    rw [← hf, hstart hfirst]
    simp
  | some g =>
    rw [hfirst, Option.getD_some] at hf
    exact hf ▸ List.mem_append_left _ (h.first g hfirst)

variable (hstart : s.first = none → s.address = base)
include hstart

lemma step (img : Image) (limit : UInt64) :
    (∃ t, s.step img limit = .inr t ∧ SweepLogged base (runs ++ s.entered img limit) t) ∨
      ∃ t, s.step img limit = .inl t ∧ SweepLogged base (runs ++ s.entered img limit) t ∧
        (t.first = none → t.address = base) ∧ t.dis.unmapped < s.dis.unmapped := by
  have hend : ∀ t, Keeps s t → s.entered img limit = [] → s.step img limit = .inr t →
      ∃ t, s.step img limit = .inr t ∧ SweepLogged base (runs ++ s.entered img limit) t := by
    intro t hkeeps hnothing hstep
    refine ⟨t, hstep, ?_⟩
    rw [hnothing, List.append_nil]
    exact h.keeps hkeeps
  cases hfetch : img s.address with
  | failed page =>
    refine .inl (hend { s with failedPage := page } ⟨rfl, h.logged.last, rfl⟩ ?_ ?_)
    · simp only [Sweep.entered, hfetch]
    · simp only [Sweep.step, hfetch]
  | invalid =>
    refine .inl (hend { s with failedPage := unset } ⟨rfl, h.logged.last, rfl⟩ ?_ ?_)
    · simp only [Sweep.entered, hfetch]
    · simp only [Sweep.step, hfetch]
  | insn ins =>
    by_cases hlt : s.address > limit
    · refine .inl (hend { s with address := s.address + ins.size.toUInt64, failedPage := unset }
        ⟨rfl, h.logged.last, rfl⟩ ?_ ?_)
      · simp only [Sweep.entered, hfetch, hlt, true_or, if_true]
      · simp only [Sweep.step, hfetch, if_pos hlt]
    have hstep : s.step img limit = Sweep.visit
        { s with address := s.address + ins.size.toUInt64, failedPage := unset } s.address ins := by
      simp only [Sweep.step, hfetch, if_neg hlt]
    rcases Sweep.visit_cases (s := { s with
        address := s.address + ins.size.toUInt64, failedPage := unset })
      h.logged.last s.address ins with ⟨hknown, t, ht, hkeeps⟩ | ⟨t, ht, henters⟩
    · refine .inl (hend t ⟨hkeeps.map, hkeeps.last, hkeeps.first⟩ ?_ (hstep.trans ht))
      have hsome : (s.dis.mapGet s.address).isSome := hknown
      simp only [Sweep.entered, hfetch, hsome, or_true, if_true]
    · have hfresh : s.dis.mapGet s.address = none := henters.fresh
      have hafter : s.after img limit = t := by
        rw [Sweep.after, hstep]
        rcases ht with ht | ht <;> rw [ht]
      have hone : s.entered img limit = [(s.address, t.dis.listElement)] := by
        simp [Sweep.entered, hfetch, hlt, hfresh, hafter]
      have hlogged := h.enters hstart (t := t)
        ⟨henters.fresh, henters.map, henters.last, henters.first⟩
      rw [← hone] at hlogged
      rcases ht with ht | ht
      · refine .inr ⟨t, hstep.trans ht, hlogged, fun hnone => ?_, ?_⟩
        · rw [henters.first] at hnone
          cases hnone
        · exact CofiMap.unmapped_lt hfresh henters.map
      · exact .inl ⟨t, hstep.trans ht, hlogged⟩

lemma iterate (img : Image) (limit : UInt64) {m : ℕ} (hm : s.dis.unmapped ≤ m) :
    ∃ t, Nyx.iterate (Sweep.step img limit) (m + 1) s = some t ∧
      SweepLogged base (runs ++ Sweep.entries img limit (m + 1) s) t := by
  induction m generalizing s runs with
  | zero =>
    rcases h.step hstart img limit with ⟨t, ht, hlogged⟩ | ⟨t, -, -, -, hlt⟩
    · refine ⟨t, iterate_of_inr ht 0, ?_⟩
      simpa [Sweep.entries, ht] using hlogged
    · omega
  | succ m ih =>
    rcases h.step hstart img limit with ⟨t, ht, hlogged⟩ | ⟨t, ht, hlogged, hnext, hlt⟩
    · refine ⟨t, iterate_of_inr ht (m + 1), ?_⟩
      simpa [Sweep.entries, ht] using hlogged
    · obtain ⟨u, hu, hrest⟩ := ih hlogged hnext (by omega)
      refine ⟨u, (iterate_of_inl ht (m + 1)).trans hu, ?_⟩
      rw [List.append_assoc] at hrest
      simpa only [Sweep.entries, ht] using hrest

end SweepLogged

/-! ### `get_obj` -/

variable {d : CofiMap} {runs : List RunEntry}

lemma Logged.getObj (h : Logged d runs) (img : Image) (filter : AddrFilter) (a : UInt64) :
    Logged (getObj img filter d a).dis (runs ++ objEntries img filter d a) ∧
      (d.mapGet a = none → ∀ n, (Pt.getObj img filter d a).obj = .element n →
        (a, .element n) ∈ runs ++ objEntries img filter d a) := by
  unfold Pt.getObj objEntries
  cases hget : d.mapGet a with
  | some r =>
    simpa using h
  | none =>
    cases [filter 0, filter 1, filter 2, filter 3].find? (·.contains a) with
    | none =>
      simpa using h
    | some range =>
      have hstart : SweepLogged a runs ⟨d, a, false, none, none, unset, 0⟩ :=
        ⟨h, fun f hf => by cases hf⟩
      obtain ⟨t, ht, hlogged⟩ := hstart.iterate (fun _ => rfl) img range.max d.unmapped_le
      have hrounds : Nyx.iterate (Sweep.step img range.max) Sweep.rounds
          ⟨d, a, false, none, none, unset, 0⟩ = some t := ht
      dsimp only
      rw [analyseAssembly, hrounds]
      dsimp only
      cases hfirst : t.first with
      | none => exact ⟨hlogged.logged, fun _ n hn => by cases hn⟩
      | some f =>
        dsimp only
        split
        · exact ⟨hlogged.logged, fun _ n hn => by cases hn⟩
        · refine ⟨hlogged.logged, fun _ n hn => ?_⟩
          have hf : f = .element n := hn
          exact hlogged.first _ (hf ▸ hfirst)

lemma Analysed.logged (h : Analysed img filter d runs) : Logged d runs := by
  induction h with
  | new => exact .new
  | getObj _ a ih => exact (ih.getObj img filter a).1
  | setCofiPtr _ _ _ ih => exact ih.write rfl ih.last
  | setCofiTargetPtr _ _ _ ih => exact ih.write rfl ih.last

lemma Logged.exact_iff (h : Logged d runs) (img : Image) (filter : AddrFilter) (a : UInt64) :
    Exact img filter d runs a ↔ ∀ e ∈ runs, mapKey e.1 = mapKey a → e.1 = a := by
  cases hget : d.mapGet a with
  | none =>
    refine ⟨fun _ e he hkey => ?_, fun _ => (h.getObj img filter a).2 hget⟩
    rw [h.mapGet_of_mem (a := e.1) (r := e.2) he hkey] at hget
    cases hget
  | some r =>
    have hobj : (Pt.getObj img filter d a).obj = r := by simp only [Pt.getObj, hget]
    have hnothing : objEntries img filter d a = [] := by simp only [objEntries, hget]
    obtain ⟨b, hb, hkey⟩ := (h.mapped (mapKey a) r).mp hget
    unfold Exact
    rw [hobj, hnothing, List.append_nil]
    constructor
    · intro hexact e he hkey'
      obtain ⟨n, hn⟩ := h.element (b, r) hb
      have hmem := hexact n hn
      rw [h.unique e he _ hmem hkey']
    · intro hsame n hn
      rw [← hsame (b, r) hb hkey, ← hn]
      exact hb

lemma Sweep.address_of_visit {s t : Sweep} {addr : UInt64} {ins : CsInsn}
    (h : s.visit addr ins = .inl t) : t.address = s.address := by
  have hvisited := s.visited addr ins
  rw [h] at hvisited
  cases hvisited with
  | plain => exact (s.opened_fields addr ins).1
  | branch => exact (s.opened_fields addr ins).1

lemma Sweep.address_of_step {s t : Sweep} (h : s.step img limit = .inl t) :
    ∃ ins, img s.address = .insn ins ∧ t.address = s.address + ins.size.toUInt64 := by
  unfold Sweep.step at h
  cases hfetch : img s.address with
  | insn ins =>
    simp only [hfetch] at h
    split at h
    · cases h
    · exact ⟨ins, rfl, Sweep.address_of_visit h⟩
  | _ =>
    rw [hfetch] at h
    cases h

lemma Sweep.mem_entries (bottom : UInt64)
    (hup : ∀ a ins, img a = .insn ins → bottom ≤ a → bottom ≤ a + ins.size.toUInt64) {n : ℕ}
    {s : Sweep} (hs : bottom ≤ s.address) {e : RunEntry} (h : e ∈ s.entries img limit n) :
    (∃ ins, img e.1 = .insn ins) ∧ bottom ≤ e.1 ∧ e.1 ≤ limit := by
  induction n generalizing s with
  | zero => cases h
  | succ n ih =>
    rw [Sweep.entries, List.mem_append] at h
    rcases h with h | h
    · cases hfetch : img s.address with
      | insn ins =>
        simp only [Sweep.entered, hfetch] at h
        split at h
        · cases h
        · next hnot =>
          rw [List.mem_singleton] at h
          rw [not_or] at hnot
          rw [h]
          exact ⟨⟨ins, hfetch⟩, hs, UInt64.not_lt.mp hnot.1⟩
      | _ => simp [Sweep.entered, hfetch] at h
    · split at h
      · next t ht =>
        obtain ⟨ins, hins, haddress⟩ := Sweep.address_of_step ht
        exact ih (haddress ▸ hup s.address ins hins hs) h
      · cases h

lemma mem_objEntries {a : UInt64} {e : RunEntry} (h : e ∈ objEntries img filter d a) :
    ∃ i, (filter i).contains a ∧
      e ∈ Sweep.entries img (filter i).max Sweep.rounds ⟨d, a, false, none, none, unset, 0⟩ := by
  unfold objEntries at h
  split at h
  · cases h
  · split at h
    · next range hrange =>
      obtain ⟨i, rfl, hcontains⟩ := filter.exists_of_find hrange
      exact ⟨i, hcontains, h⟩
    · cases h

lemma Analysed.mem_runs {R : RunEntry → Prop} (hR : ∀ d a, ∀ e ∈ objEntries img filter d a, R e)
    (h : Analysed img filter d runs) {e : RunEntry} (he : e ∈ runs) : R e := by
  induction h with
  | new => cases he
  | @getObj d runs _ a ih =>
    rcases List.mem_append.mp he with he | he
    · exact ih he
    · exact hR d a e he
  | setCofiPtr _ _ _ ih => exact ih he
  | setCofiTargetPtr _ _ _ ih => exact ih he

lemma Analysed.code (h : Analysed img filter d runs)
    {e : RunEntry} (he : e ∈ runs) : ∃ ins, img e.1 = .insn ins := by
  refine h.mem_runs (R := fun e => ∃ ins, img e.1 = .insn ins) (fun d a e he => ?_) he
  obtain ⟨i, -, hentry⟩ := mem_objEntries he
  exact (Sweep.mem_entries 0 (fun a ins _ _ => UInt64.zero_le) UInt64.zero_le hentry).1

end Sweeps

/-! ### Runs -/

section Runs

variable (img : Image) (filter : AddrFilter) (size : UInt32)

/-- The lists that occur in calls on one image: between two rounds of `trace_disassembler` and
between two labels of `trace_disassembler_loop`. -/
inductive Occurs : CofiMap → Prop
  | round {fuel : ℕ} {calls : List TraceCall} {self : Disassembler} {entryPoint limit : UInt64}
    {tnt : TntCache} {bitmap : FuzzBitmap} {t : TraceState}
    (hcalls : runCalls (fun _ => img) filter size fuel Disassembler.new calls = some self)
    (hround : Visits (TraceState.step img filter size limit fuel)
      ⟨self, entryPoint, tnt, bitmap, 0⟩ t) :
    Occurs t.self.dis
  | loop {fuel : ℕ} {calls : List TraceCall} {self : Disassembler} {entryPoint limit : UInt64}
    {tnt : TntCache} {bitmap : FuzzBitmap} {t : TraceState} {s : LoopState}
    (hcalls : runCalls (fun _ => img) filter size fuel Disassembler.new calls = some self)
    (hround : Visits (TraceState.step img filter size limit fuel)
      ⟨self, entryPoint, tnt, bitmap, 0⟩ t)
    (hloop : Visits (LoopState.step img filter size limit) (t.startLoop img filter) s) :
    Occurs s.dis

variable {img filter} in
lemma TraceState.step_elim {I : Disassembler → Prop} {t : TraceState} {limit : UInt64} {fuel : ℕ}
    (ht : I t.self)
    (hloop : ∀ e, iterate (LoopState.step img filter size limit) fuel (t.startLoop img filter) =
        some (some e) →
      I (t.afterLoop e).self ∧
        (e.result ≠ .pageFault → ∀ tracelet, e.tracelet = some tracelet →
          I ((t.afterLoop e).self.traceCacheAdd ⟨t.tnt.getTntHash, t.entryPoint, limit⟩
            (tracelet.setNextEntryAddres e.entryPoint)))) :
    Sum.elim (fun t : TraceState => I t.self) (fun o => ∀ x, o = some x → I x.2.self)
      (t.step img filter size limit fuel) := by
  unfold TraceState.step
  dsimp only
  split
  · split
    · exact ht
    · intro x hx
      cases hx
      exact ht
  · split
    · next e he =>
      obtain ⟨hafter, hadd⟩ := hloop e he
      split
      · intro x hx
        cases hx
        exact hafter
      · next hresult =>
        split
        · exact fun x hx => by cases hx
        · next tracelet htracelet =>
          have hstored := hadd hresult tracelet htracelet
          split
          · exact hstored
          · intro x hx
            cases hx
            exact hstored
    · exact fun x hx => by cases hx

variable {img filter} in
lemma runCalls_elim {I : Disassembler → Prop} {fuel : ℕ}
    (hround : ∀ limit (t : TraceState), I t.self →
      Sum.elim (fun t : TraceState => I t.self) (fun o => ∀ x, o = some x → I x.2.self)
        (t.step img filter size limit fuel))
    {calls : List TraceCall} {d e : Disassembler} (hd : I d)
    (hrun : runCalls (fun _ => img) filter size fuel d calls = some e) : I e := by
  induction calls generalizing d with
  | nil =>
    cases hrun
    exact hd
  | cons c calls ih =>
    unfold runCalls at hrun
    cases ho : c.run (fun _ => img) filter size fuel d with
    | none =>
      rw [ho] at hrun
      cases hrun
    | some o =>
      rw [ho] at hrun
      refine ih ?_ hrun
      unfold TraceCall.run traceDisassembler at ho
      rw [Option.join_eq_some_iff] at ho
      exact iterate_elim (P := fun t : TraceState => I t.self) (hround c.limit) hd ho o rfl

/-- What the decoder does to the list keeps `P`. -/
structure ListInvariant (P : CofiMap → Prop) : Prop where
  getObj : ∀ d a, P d → P (getObj img filter d a).dis
  setCofiPtr : ∀ d r target, P d → P (d.setCofiPtr r target)
  setCofiTargetPtr : ∀ d r target, P d → P (d.setCofiTargetPtr r target)

abbrev LoopState.After (P : CofiMap → Prop) : LoopState ⊕ Option LoopExit → Prop :=
  Sum.elim (fun s => P s.dis) fun e => ∀ x, e = some x → P x.dis

abbrev TraceState.After (P : CofiMap → Prop) :
    TraceState ⊕ Option (DisasResult × TraceState) → Prop :=
  Sum.elim (fun t => P t.self.dis) fun o => ∀ x, o = some x → P x.2.self.dis

namespace ListInvariant

variable {img filter} {P : CofiMap → Prop} (limit : UInt64)

lemma leave {s : LoopState} (hs : P s.dis) (result : DisasResult) (tracelet : Option Tracelet) :
    LoopState.After P (s.leave result tracelet) := by
  intro x hx
  cases hx
  exact hs

variable (h : ListInvariant img filter P)
include h

lemma follow {s t : LoopState} (hs : P s.dis) {tnt : TntCache}
    {dst : UInt64} (ht : s.follow img filter size tnt dst = some t) : P t.dis := by
  obtain ⟨tmp, -, rfl⟩ := Option.map_eq_some_iff.mp ht
  exact h.getObj s.dis dst hs

lemma doConditionalBranch {s : LoopState} (hs : P s.dis) :
    LoopState.After P (s.doConditionalBranch img filter size) := by
  unfold LoopState.doConditionalBranch
  split
  · exact leave (s := { s with entryPoint := s.header.insAddr }) hs _ _
  · split
    · next tnt _ => exact leave (s := { s with tnt := tnt }) hs _ _
    · split
      · next t ht =>
        have ht' : P t.dis := h.follow size hs ht
        exact ht'
      · exact fun x hx => by cases hx
    · split
      · next t ht =>
        have ht' : P t.dis := h.follow size hs ht
        exact ht'
      · exact fun x hx => by cases hx

lemma loopStep {s : LoopState} (hs : P s.dis) :
    LoopState.After P (s.step img filter size limit) := by
  have hnull : LoopState.After P (.inr none) := fun x hx => by cases hx
  have hcheck : ∀ start, LoopState.After P (s.branchCheck limit start) := by
    intro start
    unfold LoopState.branchCheck
    cases s.lastObj with
    | none => exact hnull
    | some last => exact hs
  unfold LoopState.step
  cases s.label with
  | conditionalBranch => exact h.doConditionalBranch size hs
  | unconditionalBranch =>
    cases (s.dis.heap s.obj).cofiTargetPtr with
    | none => exact hnull
    | some target => exact hs
  | noCofi =>
    cases (s.dis.heap s.obj).cofiPtr with
    | none => exact hnull
    | some next => exact hs
  | disassembleT =>
    cases s.lastObj with
    | none => exact hnull
    | some last => exact h.setCofiTargetPtr _ _ _ (h.getObj _ _ hs)
  | disassembleNt =>
    cases s.lastObj with
    | none => exact hnull
    | some last => exact h.setCofiPtr _ _ _ (h.getObj _ _ hs)
  | branchCheckT => exact hcheck _
  | branchCheckNt => exact hcheck _
  | nearRet => exact leave hs _ _
  | farTransfers => exact leave hs _ _
  | outOfBounds => exact leave hs _ _
  | infiniteLoop => exact leave hs _ _
  | pageCacheFailed => exact leave hs _ _

lemma startLoop {t : TraceState} (ht : P t.self.dis) :
    P (t.startLoop img filter).dis := h.getObj t.self.dis t.entryPoint ht

lemma visits_loop {s t : LoopState}
    (hvisits : Visits (LoopState.step img filter size limit) s t) (hs : P s.dis) : P t.dis :=
  hvisits.elim (P := fun s : LoopState => P s.dis) (fun _ hu => h.loopStep size limit hu) hs

lemma traceStep {t : TraceState} (ht : P t.self.dis) (fuel : ℕ) :
    TraceState.After P (t.step img filter size limit fuel) := by
  have hloop : ∀ e, iterate (LoopState.step img filter size limit) fuel (t.startLoop img filter) =
      some (some e) → P e.dis := fun e he =>
    iterate_elim (P := fun s : LoopState => P s.dis) (fun _ hu => h.loopStep size limit hu)
      (h.startLoop ht) he e rfl
  have hadd : ∀ (d : Disassembler) key tracelet, P d.dis →
      P (d.traceCacheAdd key tracelet).dis := by
    intro d key tracelet hd
    unfold Disassembler.traceCacheAdd
    split
    · exact hd
    · exact hd
  exact TraceState.step_elim (I := fun d => P d.dis) size ht fun e he =>
    ⟨hloop e he, fun _ _ _ => hadd _ _ _ (hloop e he)⟩

lemma visits_trace {fuel : ℕ} {s t : TraceState}
    (hvisits : Visits (TraceState.step img filter size limit fuel) s t) (hs : P s.self.dis) :
    P t.self.dis :=
  hvisits.elim (P := fun t : TraceState => P t.self.dis)
    (fun _ hu => h.traceStep size limit hu fuel) hs

lemma runCalls {fuel : ℕ} {calls : List TraceCall} {d e : Disassembler} (hd : P d.dis)
    (hrun : runCalls (fun _ => img) filter size fuel d calls = some e) : P e.dis := by
  exact runCalls_elim (I := fun d => P d.dis) size
    (fun limit _ ht => h.traceStep size limit ht fuel) hd hrun

theorem occurs (hnew : P CofiMap.new) {d : CofiMap} (hd : Occurs img filter size d) : P d := by
  cases hd with
  | round hcalls hround => exact h.visits_trace size _ hround (h.runCalls size hnew hcalls)
  | loop hcalls hround hloop =>
    have hself := h.visits_trace size _ hround (h.runCalls size hnew hcalls)
    exact h.visits_loop size _ hloop (h.startLoop hself)

end ListInvariant

variable {img filter} in
lemma listInvariant_analysed :
    ListInvariant img filter fun d => ∃ runs, Analysed img filter d runs := by
  constructor
  · rintro d a ⟨runs, hruns⟩
    exact ⟨_, hruns.getObj a⟩
  · rintro d r target ⟨runs, hruns⟩
    exact ⟨_, hruns.setCofiPtr r target⟩
  · rintro d r target ⟨runs, hruns⟩
    exact ⟨_, hruns.setCofiTargetPtr r target⟩

/-- In any sequence of calls `get_obj` is exact for an address if and only if no other address with
the same lower half has been entered before; that is so if no other instruction has it. -/
theorem exact_iff_of_occurs {img : Image} {filter : AddrFilter} {size : UInt32} {d : CofiMap}
    (hd : Occurs img filter size d) :
    (∃ runs, Analysed img filter d runs) ∧
      ∀ runs, Analysed img filter d runs → ∀ a,
        (Exact img filter d runs a ↔ ∀ e ∈ runs, mapKey e.1 = mapKey a → e.1 = a) ∧
          ((∀ b ins, img b = .insn ins → mapKey b = mapKey a → b = a) →
            Exact img filter d runs a) := by
  refine ⟨listInvariant_analysed.occurs size ⟨[], .new⟩ hd, fun runs hruns a => ?_⟩
  have hiff := hruns.logged.exact_iff img filter a
  refine ⟨hiff, fun hdistinct => hiff.mpr fun e he hkey => ?_⟩
  obtain ⟨ins, hins⟩ := hruns.code he
  exact hdistinct e.1 ins hins hkey

def twinCode : Image := fun a =>
  if a = 0x1000 then .insn ⟨.je, 0, 0x74, 2, "0x100001000".toList⟩
  else if a = 0x1002 then .insn ⟨.ret, 0, 0xC3, 1, []⟩
  else if a = 0x100001000 then .insn ⟨.ret, 0, 0xC3, 1, []⟩
  else .invalid

def twinFilter : AddrFilter := fun i =>
  if i = 0 then ⟨0x1000, 0x2000⟩ else if i = 1 then ⟨0x100001000, 0x100002000⟩ else ⟨0, 0⟩

def twinLoop : LoopState :=
  TraceState.startLoop twinCode twinFilter
    ⟨Disassembler.new, 0x1000, TntCache.tntCacheInit.appendTntCache 0x06, fun _ => 0, 0⟩

lemma twinLoop_occurs : Occurs twinCode twinFilter 0x10000 twinLoop.dis := by
  have hcalls : runCalls (fun _ => twinCode) twinFilter 0x10000 0 Disassembler.new [] =
      some Disassembler.new := rfl
  have hloop : Visits (LoopState.step twinCode twinFilter 0x10000 0) twinLoop twinLoop := .start
  exact .loop hcalls .start hloop

lemma twinLoop_analysed :
    Analysed twinCode twinFilter twinLoop.dis (objEntries twinCode twinFilter CofiMap.new 0x1000) :=
  Analysed.getObj .new 0x1000

theorem exact_iff_of_occurs_twin :
    twinFilter.Accepted ∧ Occurs twinCode twinFilter 0x10000 twinLoop.dis ∧
      objEntries twinCode twinFilter CofiMap.new 0x1000 =
        [(0x1000, .element 1), (0x1002, .element 2)] ∧
      Exact twinCode twinFilter twinLoop.dis
        (objEntries twinCode twinFilter CofiMap.new 0x1000) 0x1002 := by
  have hentries : objEntries twinCode twinFilter CofiMap.new 0x1000 =
      [(0x1000, .element 1), (0x1002, .element 2)] := by decide +kernel
  refine ⟨by decide, twinLoop_occurs, hentries, ?_⟩
  have hexact := (exact_iff_of_occurs twinLoop_occurs).2 _ twinLoop_analysed 0x1002
  refine hexact.1.mpr fun e he hkey => ?_
  rw [hentries] at he
  simp only [List.mem_cons, List.not_mem_nil, or_false] at he
  rcases he with rfl | rfl
  · exact absurd hkey (by decide)
  · rfl

theorem not_exact_twin :
    twinFilter.Accepted ∧ Occurs twinCode twinFilter 0x10000 twinLoop.dis ∧
      Analysed twinCode twinFilter twinLoop.dis
        (objEntries twinCode twinFilter CofiMap.new 0x1000) ∧
      (twinLoop.step twinCode twinFilter 0x10000 0).getLeft?.map (·.obj) = some (.element 1) ∧
      ¬Exact twinCode twinFilter twinLoop.dis (objEntries twinCode twinFilter CofiMap.new 0x1000)
        0x100001000 := by
  refine ⟨by decide, twinLoop_occurs, twinLoop_analysed, by decide +kernel, fun hexact => ?_⟩
  have hmem := hexact 1 (by decide +kernel)
  revert hmem
  decide +kernel

end Runs

end Nyx.Pt
