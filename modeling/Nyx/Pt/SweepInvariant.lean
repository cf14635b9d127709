import Nyx.Pt.CofiInvariant

/-!
# Sweeps keep what the list says

A sweep of `analyse_assembly` decodes up to a return or the like, an instruction in the map, or the
end of the code or of the range. What it adds describes the code.
-/

namespace Nyx.Pt

/-- No range starts where another one ends. -/
def AddrFilter.Apart (filter : AddrFilter) : Prop :=
  ∀ i j, (filter i).min < (filter i).max → (filter j).min < (filter j).max →
    (filter j).min ≠ (filter i).max

lemma AddrFilter.exists_of_find (filter : AddrFilter) {addr : UInt64} {range : AddrRange}
    (h : [filter 0, filter 1, filter 2, filter 3].find? (·.contains addr) = some range) :
    ∃ i, range = filter i ∧ (filter i).contains addr := by
  have hcontains : range.contains addr := by simpa using List.find?_some h
  have hmem := List.mem_of_find?_eq_some h
  simp only [List.mem_cons, List.not_mem_nil, or_false] at hmem
  rcases hmem with rfl | rfl | rfl | rfl
  · exact ⟨0, rfl, hcontains⟩
  · exact ⟨1, rfl, hcontains⟩
  · exact ⟨2, rfl, hcontains⟩
  · exact ⟨3, rfl, hcontains⟩

namespace CofiMap

/-- What `d` has in addition to `d₀` belongs to elements that were not in use. -/
structure Grows (d₀ d : CofiMap) : Prop where
  keeps : d₀.Extends d
  entries : ∀ a r, d.mapGet a = some r →
    d₀.mapGet a = some r ∨ (d₀.heap r).cofi.type = .disassemblyPending
  headers : ∀ r, (d₀.heap r).cofi.type ≠ .disassemblyPending → (d.heap r).cofi = (d₀.heap r).cofi
  allocated : d₀.allocated ≤ d.allocated

def unmapped (d : CofiMap) : ℕ :=
  ((Finset.range (2 ^ 32)).filter fun k => d.map (UInt32.ofNat k) = none).card

lemma unmapped_le (d : CofiMap) : d.unmapped ≤ 2 ^ 32 := by
  calc _ ≤ (Finset.range (2 ^ 32)).card := Finset.card_filter_le _ _
    _ = 2 ^ 32 := Finset.card_range _

lemma unmapped_lt {d e : CofiMap} {a : UInt64} {r : Ref} (hnone : d.mapGet a = none)
    (hmap : e.map = (d.mapPut a r).map) : e.unmapped < d.unmapped := by
  apply Finset.card_lt_card
  have hkey : UInt32.ofNat (mapKey a).toNat = mapKey a := UInt32.ofNat_toNat
  rw [Finset.ssubset_iff_of_subset]
  · refine ⟨(mapKey a).toNat, ?_, ?_⟩
    · rw [Finset.mem_filter, Finset.mem_range, hkey]
      exact ⟨(mapKey a).toNat_lt, hnone⟩
    · rw [Finset.mem_filter, hkey, hmap, map_mapPut_self]
      exact fun h => by cases h.2
  · intro k hk
    rw [Finset.mem_filter, hmap] at hk
    refine Finset.mem_filter.mpr ⟨hk.1, ?_⟩
    by_cases heq : UInt32.ofNat k = mapKey a
    · rw [heq]
      exact hnone
    · rw [← map_mapPut_of_ne d r heq]
      exact hk.2

namespace Grows

variable {d₀ d : CofiMap}

lemma refl (d : CofiMap) : d.Grows d :=
  ⟨fun _ _ h => h, fun _ _ h => .inl h, fun _ _ => rfl, le_rfl⟩

variable (h : d₀.Grows d)
include h

lemma write {e : CofiMap} (hmap : e.map = d.map)
    (hheap : ∀ r, (d₀.heap r).cofi.type ≠ .disassemblyPending → (e.heap r).cofi = (d.heap r).cofi)
    (hle : d.allocated ≤ e.allocated) : d₀.Grows e := by
  have hget : ∀ a, e.mapGet a = d.mapGet a := fun a => congrFun hmap (mapKey a)
  constructor
  · intro a r hr
    rw [hget]
    exact h.keeps a r hr
  · intro a r hr
    rw [hget] at hr
    exact h.entries a r hr
  · exact fun r hr => (hheap r hr).trans (h.headers r hr)
  · exact h.allocated.trans hle

lemma mapPut {a : UInt64} (hnone : d.mapGet a = none) {r : Ref}
    (hr : (d₀.heap r).cofi.type = .disassemblyPending) : d₀.Grows (d.mapPut a r) := by
  constructor
  · exact fun b q hq => extends_mapPut r hnone b q (h.keeps b q hq)
  · intro b q hq
    by_cases hkey : mapKey b = mapKey a
    · have heq : r = q := by simpa [mapGet, CofiMap.mapPut, hkey] using hq
      exact .inr (heq ▸ hr)
    · rw [mapGet_mapPut_of_ne _ _ hkey] at hq
      exact h.entries b q hq
  · exact h.headers
  · exact h.allocated

lemma append (hd₀ : Shape d₀) (p : Option Ref) (target : Ref) (header : CofiHeader) :
    d₀.Grows ((d.editCofiPtr p target).newListElement header) := by
  apply h.write
  · exact map_append d p target header
  · intro r hr
    apply (heap_append d p target header _).1
    rintro rfl
    exact hr (hd₀.fresh _ h.allocated)
  · simp

lemma setCofiPtr (r target : Ref) : d₀.Grows (d.setCofiPtr r target) := by
  apply h.write
  · rfl
  · intro q _
    exact cofi_setCofiPtr d r target q
  · rfl

lemma setHeader {r : Ref} (hr : (d₀.heap r).cofi.type = .disassemblyPending)
    (header : CofiHeader) : d₀.Grows (d.setHeader r header) := by
  apply h.write
  · rfl
  · intro q hq
    have hne : q ≠ r := by
      rintro rfl
      exact hq hr
    simp [CofiMap.setHeader, hne]
  · rfl

end Grows

end CofiMap

section Sweeps

variable {img : Image} {filter : AddrFilter}

lemma leaves_of_limit (haccepted : filter.Accepted) (hapart : filter.Apart) {i : Fin 4}
    {base a b : UInt64} (hbase : (filter i).contains base) (ha : a ≤ (filter i).max)
    (hb : (filter i).max < b) : Leaves img filter a b := by
  right
  rintro j ⟨hja, hjb⟩
  simp only [AddrRange.contains, Bool.and_eq_true, decide_eq_true_eq] at hbase hja hjb
  by_cases hij : i = j
  · subst hij
    exact absurd hb (UInt64.not_lt.mpr (UInt64.le_of_lt hjb.2))
  · have hnot := (haccepted i j hij).2
    have hne := hapart i j (UInt64.lt_of_le_of_lt hbase.1 hbase.2)
      (UInt64.lt_of_le_of_lt hja.1 hja.2)
    apply hnot
    simp only [AddrRange.contains, Bool.and_eq_true, decide_eq_true_eq]
    rw [Ne, ← UInt64.toNat_inj] at hne
    simp only [UInt64.le_iff_toNat_le, UInt64.lt_iff_toNat_lt] at hbase ha hb hja hjb ⊢
    have hone : (1 : UInt64).toNat = 1 := rfl
    have hsub : ((filter i).max - 1).toNat = (filter i).max.toNat - 1 := by
      rw [UInt64.toNat_sub_of_le _ _ (UInt64.le_iff_toNat_le.mpr (by omega)), hone]
    omega

variable (img filter) in
/-- What a sweep from `base` has made of the list `d₀` when it comes to an address. -/
structure SweepOk (base limit : UInt64) (d₀ : CofiMap) (s : Sweep) : Prop where
  grows : d₀.Grows s.dis
  pred : ∀ p, s.predecessor = some p → Loose img filter s.dis p ∧ p ≠ s.dis.listElement
  closed : s.lastNop = false → Sound img filter s.dis ∧ s.lastNoCofiAddr = unset
  opened : s.lastNop = true → Ready img filter s.dis s.address limit ∧
    (d₀.heap s.dis.listElement).cofi.type = .disassemblyPending ∧
    (s.lastNoCofiAddr ≠ unset → s.dis.mapGet s.lastNoCofiAddr = some s.dis.listElement)
  start : s.first = none → s.address = base ∧ s.lastNop = false ∧ s.dis.mapGet base = none
  first : ∀ f, s.first = some f → s.dis.mapGet base = some f

variable (img filter) in
/-- The sweep in front of `addr`. -/
structure OpenOk (base limit : UInt64) (d₀ : CofiMap) (addr : UInt64) (s : Sweep) : Prop where
  grows : d₀.Grows s.dis
  pred : ∀ p, s.predecessor = some p → Loose img filter s.dis p ∧ p ≠ s.dis.listElement
  ready : Ready img filter s.dis addr limit
  unused : (d₀.heap s.dis.listElement).cofi.type = .disassemblyPending
  run : s.lastNoCofiAddr ≠ unset → s.dis.mapGet s.lastNoCofiAddr = some s.dis.listElement
  start : s.first = none → addr = base ∧ s.lastNoCofiAddr = unset ∧ s.dis.mapGet base = none
  first : ∀ f, s.first = some f → s.dis.mapGet base = some f

variable (img filter) in
/-- What a sweep from `base` leaves. -/
structure SweepDone (base : UInt64) (d₀ : CofiMap) (s : Sweep) : Prop where
  grows : d₀.Grows s.dis
  sound : Sound img filter s.dis
  start : s.first = none → ∀ ins, img base ≠ .insn ins
  first : ∀ f, s.first = some f → s.dis.mapGet base = some f
  failedPage : s.failedPage = unset

variable {base limit : UInt64} {d₀ : CofiMap} {s : Sweep}

lemma Sound.append (h : Sound img filter s.dis)
    (hpred : ∀ p, s.predecessor = some p → Loose img filter s.dis p) (addr limit : UInt64)
    (size : UInt16) : Ready img filter (s.append ⟨addr, 0, size, .noCofiType⟩).dis addr limit := by
  have hnew := CofiMap.heap_newListElement_self
    (s.dis.editCofiPtr s.predecessor s.dis.listElement) ⟨addr, 0, size, .noCofiType⟩
  constructor
  · exact h.toShape.append _ _ _
  · intro a ins r hcode hget _
    have hold : s.dis.mapGet a = some r := by simpa [Sweep.append] using hget
    exact (h.describes a ins r hcode hold).append h.toShape _ _ hpred hcode hold
  · exact congrArg (fun x : CofiList => x.cofi.type) hnew
  · exact congrArg CofiList.cofiTargetPtr hnew
  · intro a ins _ hget
    have hold : s.dis.mapGet a = some (.element s.dis.allocated) := by
      simpa [Sweep.append] using hget
    exact absurd rfl (h.toShape.ne_of_mapGet hold)

lemma SweepOk.openOk (hd₀ : Shape d₀) (h : SweepOk img filter base limit d₀ s) (ins : CsInsn)
    (next page : UInt64) :
    OpenOk img filter base limit d₀ s.address
      (Sweep.opened { s with address := next, failedPage := page } s.address ins) := by
  unfold Sweep.opened
  cases hnop : s.lastNop with
  | true =>
    obtain ⟨hready, hunused, hrun⟩ := h.opened hnop
    refine ⟨h.grows, h.pred, hready, hunused, hrun, fun hfirst => ?_, h.first⟩
    rw [(h.start hfirst).2.1] at hnop
    cases hnop
  | false =>
    obtain ⟨hsound, hunset⟩ := h.closed hnop
    constructor
    · exact h.grows.append hd₀ _ _ _
    · intro p hp
      cases hp
      refine ⟨hsound.loose.append _ _ _, ?_⟩
      simpa [Sweep.append] using hsound.toShape.listElement_ne
    · exact hsound.append (fun p hp => (h.pred p hp).1) _ _ _
    · simpa [Sweep.append] using hd₀.fresh _ h.grows.allocated
    · exact fun hne => absurd hunset hne
    · intro hfirst
      obtain ⟨haddr, -, hnone⟩ := h.start hfirst
      exact ⟨haddr, hunset, by simpa [Sweep.append] using hnone⟩
    · intro f hf
      simpa [Sweep.append] using h.first f hf

lemma Sweep.first_setFirst (s : Sweep) : s.setFirst.first = some (s.first.getD s.dis.listElement) := by
  unfold setFirst
  cases s.first <;> rfl

namespace OpenOk

variable {addr : UInt64} {ins : CsInsn}

variable (h : OpenOk img filter base limit d₀ addr s)
include h

lemma mapGet_base {e : CofiMap} {r : Ref} (hext : s.dis.Extends e) (hput : e.mapGet addr = some r) :
    e.mapGet base = some (s.first.getD r) := by
  cases hfirst : s.first with
  | none =>
    rw [← (h.start hfirst).1]
    exact hput
  | some f => exact hext _ _ (h.first f hfirst)

lemma linkKnown (hd₀ : Shape d₀) {known : Ref} (hknown : s.dis.mapGet addr = some known)
    (hpage : s.failedPage = unset) : SweepDone img filter base d₀ (s.linkKnown addr known) := by
  constructor
  · exact (h.grows.setCofiPtr _ _).append hd₀ _ _ _
  · exact h.ready.link hknown (fun p hp => (h.pred p hp).1) _ _
  · intro hfirst
    obtain ⟨haddr, -, hnone⟩ := h.start hfirst
    rw [← haddr, hknown] at hnone
    cases hnone
  · intro f hf
    simpa [Sweep.linkKnown, Sweep.append] using h.first f hf
  · exact hpage

lemma addNoCofi (hdistinct : img.Distinct) (hnone : s.dis.mapGet addr = none)
    (hcode : img addr = .insn ins) (hclass : ins.opcodeAnalyzer = .noCofiType) (hle : addr ≤ limit)
    (hnext : s.address = addr + ins.size.toUInt64) :
    SweepOk img filter base limit d₀ (s.addNoCofi addr) := by
  have hext := CofiMap.extends_mapPut s.dis.listElement hnone
  have hput := CofiMap.mapGet_mapPut_self s.dis addr s.dis.listElement
  constructor
  · exact h.grows.mapPut hnone h.unused
  · intro p hp
    obtain ⟨hloose, hne⟩ := h.pred p hp
    exact ⟨hloose.mapPut hne hnone, hne⟩
  · intro hnop
    cases hnop
  · intro _
    refine ⟨?_, h.unused, ?_⟩
    · have hready := h.ready.put hdistinct hnone hcode hclass hle
      rwa [← hnext] at hready
    · intro _
      by_cases hunset : s.lastNoCofiAddr = unset
      · simp only [Sweep.addNoCofi, Sweep.setFirst, if_pos hunset]
        exact hput
      · simp only [Sweep.addNoCofi, Sweep.setFirst, if_neg hunset]
        exact hext _ _ (h.run hunset)
  · intro hfirst
    rw [Sweep.addNoCofi, Sweep.first_setFirst] at hfirst
    cases hfirst
  · intro f hf
    rw [Sweep.addNoCofi, Sweep.first_setFirst, Option.some.injEq] at hf
    rw [← hf]
    exact h.mapGet_base hext hput

lemma addBranch (hdistinct : img.Distinct) (hnone : s.dis.mapGet addr = none)
    (hcode : img addr = .insn ins) (hclass : ins.opcodeAnalyzer ≠ .noCofiType) :
    SweepOk img filter base limit d₀ (s.addBranch addr ins) := by
  have hsound := h.ready.close hdistinct hnone hcode (fun _ => rfl) hclass
  constructor
  · exact (h.grows.setHeader h.unused _).mapPut hnone h.unused
  · intro p hp
    obtain ⟨hloose, hne⟩ := h.pred p hp
    exact ⟨Loose.mapPut hloose hne hnone, hne⟩
  · exact fun _ => ⟨hsound, rfl⟩
  · intro hnop
    cases hnop
  · intro hfirst
    rw [Sweep.addBranch, Sweep.first_setFirst] at hfirst
    cases hfirst
  · intro f hf
    rw [Sweep.addBranch, Sweep.first_setFirst, Option.some.injEq] at hf
    rw [← hf]
    exact h.mapGet_base (CofiMap.extends_mapPut s.dis.listElement hnone)
      (CofiMap.mapGet_mapPut_self _ addr s.dis.listElement)

lemma addTransfer (hd₀ : Shape d₀) (hdistinct : img.Distinct) (hnone : s.dis.mapGet addr = none)
    (hcode : img addr = .insn ins)
    (htarget : ins.opcodeAnalyzer ≠ .conditionalBranch ∧
      ins.opcodeAnalyzer ≠ .unconditionalDirectBranch)
    (hclass : ins.opcodeAnalyzer ≠ .noCofiType) (hpage : s.failedPage = unset) :
    SweepDone img filter base d₀ (s.addTransfer addr ins) := by
  unfold Sweep.addTransfer
  by_cases hset : s.lastNoCofiAddr ≠ unset
  · rw [if_pos hset]
    have hdis := Sweep.dis_addTransferAfterNoCofi ins (h.run hset) hnone
    have hfirst : (s.addTransferAfterNoCofi addr ins).first = s.first := by
      cases hfirst : s.first with
      | none => exact absurd (h.start hfirst).2.1 hset
      | some f => simp [Sweep.addTransferAfterNoCofi, Sweep.setFirst, hfirst]
    have hext : s.dis.Extends (s.addTransferAfterNoCofi addr ins).dis := by
      rw [hdis]
      exact CofiMap.extends_mapPut _ hnone
    constructor
    · rw [hdis]
      have hrun := (h.grows.setHeader h.unused ⟨s.lastNoCofiAddr, addr, 0, .noCofiType⟩).setCofiPtr
        s.dis.listElement s.dis.listElement
      have hnew := hrun.append hd₀ none s.dis.listElement ⟨addr, 0, ins.size, ins.opcodeAnalyzer⟩
      exact (hnew.mapPut hnone (hd₀.fresh _ h.grows.allocated)).setCofiPtr _ _
    · rw [hdis]
      exact h.ready.transfer hdistinct hnone hcode htarget hclass s.lastNoCofiAddr
    · intro hnone
      rw [hfirst] at hnone
      exact absurd (h.start hnone).2.1 hset
    · intro f hf
      rw [hfirst] at hf
      exact hext _ _ (h.first f hf)
    · exact hpage
  · rw [if_neg hset]
    constructor
    · exact (h.grows.setHeader h.unused _).mapPut hnone h.unused
    · exact h.ready.close hdistinct hnone hcode
        (fun hbranch => absurd hbranch (not_or.mpr htarget)) hclass
    · intro hfirst
      rw [Sweep.first_setFirst] at hfirst
      cases hfirst
    · intro f hf
      rw [Sweep.first_setFirst, Option.some.injEq] at hf
      rw [← hf]
      exact h.mapGet_base (CofiMap.extends_mapPut s.dis.listElement hnone)
        (CofiMap.mapGet_mapPut_self _ addr s.dis.listElement)
    · exact hpage

end OpenOk

variable (img filter) in
/-- Code that sweeps describe correctly: every page is there, the keys tell the addresses apart, and
there is a gap between the ranges. -/
structure Placed : Prop where
  pages : ∀ a page, img a ≠ .failed page
  distinct : img.Distinct
  accepted : filter.Accepted
  apart : filter.Apart

namespace SweepOk

lemma stop (h : SweepOk img filter base limit d₀ s)
    (hleaves : ∀ a, a ≤ limit → Leaves img filter a s.address)
    (hstart : s.address = base → ∀ ins, img base ≠ .insn ins) (address : UInt64) :
    SweepDone img filter base d₀ { s with address := address, failedPage := unset } := by
  refine ⟨h.grows, ?_, fun hfirst => hstart (h.start hfirst).1, h.first, rfl⟩
  cases hnop : s.lastNop with
  | false => exact (h.closed hnop).1
  | true => exact (h.opened hnop).1.stop hleaves

lemma visit (hcode : Placed img filter) (hd₀ : Shape d₀) (h : SweepOk img filter base limit d₀ s)
    {ins : CsInsn} (hins : img s.address = .insn ins) (hle : s.address ≤ limit) :
    (∃ s', Sweep.visit { s with address := s.address + ins.size.toUInt64, failedPage := unset }
        s.address ins = .inl s' ∧ SweepOk img filter base limit d₀ s' ∧
        s'.dis.unmapped < s.dis.unmapped) ∨
      ∃ t, Sweep.visit { s with address := s.address + ins.size.toUInt64, failedPage := unset }
        s.address ins = .inr t ∧ SweepDone img filter base d₀ t := by
  have hopen := h.openOk hd₀ ins (s.address + ins.size.toUInt64) unset
  set next : Sweep := { s with address := s.address + ins.size.toUInt64, failedPage := unset }
  obtain ⟨haddress, hpage⟩ := next.opened_fields s.address ins
  have hmap : (next.opened s.address ins).dis.map = s.dis.map := by
    unfold Sweep.opened
    split
    · rfl
    · exact CofiMap.map_append _ _ _ _
  have hvisited := next.visited s.address ins
  generalize next.opened s.address ins = o at hopen haddress hpage hmap hvisited
  generalize next.visit s.address ins = r at hvisited
  have hless : ∀ {e : CofiMap} {r : Ref}, o.dis.mapGet s.address = none →
      e.map = (o.dis.mapPut s.address r).map → e.unmapped < s.dis.unmapped := by
    intro e r hnone he
    rw [CofiMap.mapGet, hmap] at hnone
    have hput : e.map = (s.dis.mapPut s.address r).map := by
      rw [he]
      simp only [CofiMap.mapPut, hmap]
    exact CofiMap.unmapped_lt hnone hput
  cases hvisited with
  | known hget => exact .inr ⟨_, rfl, hopen.linkKnown hd₀ hget hpage⟩
  | plain hget hclass =>
    exact .inl ⟨_, rfl, hopen.addNoCofi hcode.distinct hget hins hclass hle haddress, hless hget rfl⟩
  | branch hget hclass =>
    exact .inl ⟨_, rfl, hopen.addBranch hcode.distinct hget hins hclass, hless hget rfl⟩
  | transfer hget hclass htarget =>
    exact .inr ⟨_, rfl, hopen.addTransfer hd₀ hcode.distinct hget hins htarget hclass hpage⟩

lemma step (hcode : Placed img filter) (hd₀ : Shape d₀) (h : SweepOk img filter base limit d₀ s)
    (hlimit : ∀ a b, a ≤ limit → limit < b → Leaves img filter a b) (hbase : base ≤ limit) :
    (∃ s', s.step img limit = .inl s' ∧ SweepOk img filter base limit d₀ s' ∧
        s'.dis.unmapped < s.dis.unmapped) ∨
      ∃ t, s.step img limit = .inr t ∧ SweepDone img filter base d₀ t := by
  unfold Sweep.step
  cases hfetch : img s.address with
  | failed page => exact absurd hfetch (hcode.pages _ _)
  | invalid =>
    have hnot : ∀ ins, img s.address ≠ .insn ins := by simp [hfetch]
    exact .inr ⟨_, rfl, h.stop (fun a _ => .inl hnot) (fun heq => heq ▸ hnot) s.address⟩
  | insn ins =>
    dsimp only
    by_cases hlt : s.address > limit
    · rw [if_pos hlt]
      refine .inr ⟨_, rfl, h.stop (fun a ha => hlimit a s.address ha hlt) (fun heq => ?_) _⟩
      exact absurd (heq ▸ hlt) (UInt64.not_lt.mpr hbase)
    · rw [if_neg hlt]
      exact h.visit hcode hd₀ hfetch (UInt64.not_lt.mp hlt)

end SweepOk

/-! ### Objects -/

variable (img filter) in
/-- What `get_obj` leaves and returns. -/
structure Finds (d : CofiMap) (addr : UInt64) (f : Fetch) : Prop where
  grows : d.Grows f.dis
  sound : Sound img filter f.dis
  obj : f.dis.mapGet addr = some f.obj ∨
    (f.obj = .oobObj ∨ f.obj = .pageCacheFailedObj) ∧ Outside img filter addr

variable {d : CofiMap}

lemma analyseAssembly_finds (hcode : Placed img filter) (h : Sound img filter d)
    (hnone : d.mapGet base = none) {i : Fin 4} (hbase : (filter i).contains base) :
    Finds img filter d base (analyseAssembly img d base (filter i).max) := by
  have hlimit : ∀ a b, a ≤ (filter i).max → (filter i).max < b → Leaves img filter a b :=
    fun a b ha hb => leaves_of_limit hcode.accepted hcode.apart hbase ha hb
  have hle : base ≤ (filter i).max := by
    simp only [AddrRange.contains, Bool.and_eq_true, decide_eq_true_eq] at hbase
    exact UInt64.le_of_lt hbase.2
  have hstart : SweepOk img filter base (filter i).max d
      ⟨d, base, false, none, none, unset, 0⟩ := by
    constructor
    · exact .refl d
    · exact fun p hp => by cases hp
    · exact fun _ => ⟨h, rfl⟩
    · exact fun hnop => by cases hnop
    · exact fun _ => ⟨rfl, rfl, hnone⟩
    · exact fun f hf => by cases hf
  obtain ⟨t, ht, hdone⟩ := iterate_total (P := SweepOk img filter base (filter i).max d)
    (fun s : Sweep => s.dis.unmapped)
    (fun s hs => (SweepOk.step hcode h.toShape hs hlimit hle).symm) hstart d.unmapped_le
  have hrounds : iterate (Sweep.step img (filter i).max) Sweep.rounds
      ⟨d, base, false, none, none, unset, 0⟩ = some t := ht
  rw [analyseAssembly, hrounds]
  dsimp only
  cases hfirst : t.first with
  | none => exact ⟨hdone.grows, hdone.sound, .inr ⟨.inr rfl, .inl (hdone.start hfirst)⟩⟩
  | some f =>
    dsimp only
    rw [if_neg (fun hfailed => hfailed.1 hdone.failedPage)]
    exact ⟨hdone.grows, hdone.sound, .inl (hdone.first f hfirst)⟩

theorem getObj_finds (hcode : Placed img filter) (h : Sound img filter d) (addr : UInt64) :
    Finds img filter d addr (getObj img filter d addr) := by
  unfold getObj
  cases hget : d.mapGet addr with
  | some r => exact ⟨.refl d, h, .inl hget⟩
  | none =>
    cases hrange : [filter 0, filter 1, filter 2, filter 3].find? (·.contains addr) with
    | none =>
      refine ⟨.refl d, h, .inr ⟨.inl rfl, .inr fun i => ?_⟩⟩
      rw [List.find?_eq_none] at hrange
      apply hrange
      match i with
      | 0 | 1 | 2 | 3 => simp
    | some range =>
      obtain ⟨i, rfl, hcontains⟩ := filter.exists_of_find hrange
      exact analyseAssembly_finds hcode h hget hcontains

end Sweeps

end Nyx.Pt
