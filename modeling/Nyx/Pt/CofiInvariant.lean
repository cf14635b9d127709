import Nyx.Pt.Disassembler
import Mathlib.Data.Finset.Card

/-!
# What the decoded list says about the code

Every mapped address has an element that leads to the branch that the plain instructions run into,
or to the element of a later instruction, except for runs that leave the code or their range.
-/

namespace Nyx.Pt

def CofiType.Live : CofiType → Prop
  | .disassemblyPending | .outOfBounds | .infiniteLoop | .pageCacheFailed => False
  | _ => True

lemma CsInsn.live_opcodeAnalyzer (ins : CsInsn) : ins.opcodeAnalyzer.Live := by
  rcases ins.opcodeAnalyzer_cases with h | h | h | h | h | h <;> rw [h] <;> trivial

namespace CofiMap

def Extends (d d' : CofiMap) : Prop := ∀ a r, d.mapGet a = some r → d'.mapGet a = some r

lemma mapGet_mapPut_self (d : CofiMap) (a : UInt64) (r : Ref) :
    (d.mapPut a r).mapGet a = some r := by
  simp [mapGet, mapPut]

lemma mapGet_mapPut_of_ne (d : CofiMap) {a b : UInt64} (r : Ref) (h : mapKey b ≠ mapKey a) :
    (d.mapPut a r).mapGet b = d.mapGet b := by
  simp [mapGet, mapPut, h]

lemma extends_mapPut {d : CofiMap} {a : UInt64} (r : Ref) (h : d.mapGet a = none) :
    Extends d (d.mapPut a r) := by
  intro b r' hb
  have hne : mapKey b ≠ mapKey a := by
    intro hkey
    rw [mapGet, hkey] at hb
    rw [mapGet, hb] at h
    cases h
  rw [mapGet_mapPut_of_ne d r hne, hb]

@[simp] lemma mapGet_setHeader (d : CofiMap) (r : Ref) (header : CofiHeader) (a : UInt64) :
    (d.setHeader r header).mapGet a = d.mapGet a := rfl

@[simp] lemma mapGet_setCofiPtr (d : CofiMap) (r target : Ref) (a : UInt64) :
    (d.setCofiPtr r target).mapGet a = d.mapGet a := rfl

@[simp] lemma mapGet_setCofiTargetPtr (d : CofiMap) (r target : Ref) (a : UInt64) :
    (d.setCofiTargetPtr r target).mapGet a = d.mapGet a := rfl

@[simp] lemma mapGet_newListElement (d : CofiMap) (header : CofiHeader) (a : UInt64) :
    (d.newListElement header).mapGet a = d.mapGet a := rfl

@[simp] lemma mapGet_editCofiPtr (d : CofiMap) (p : Option Ref) (target : Ref) (a : UInt64) :
    (d.editCofiPtr p target).mapGet a = d.mapGet a := by
  cases p <;> rfl

@[simp] lemma allocated_editCofiPtr (d : CofiMap) (p : Option Ref) (target : Ref) :
    (d.editCofiPtr p target).allocated = d.allocated := by
  cases p <;> rfl

@[simp] lemma allocated_newListElement (d : CofiMap) (header : CofiHeader) :
    (d.newListElement header).allocated = d.allocated + 1 := rfl

@[simp] lemma listElement_newListElement (d : CofiMap) (header : CofiHeader) :
    (d.newListElement header).listElement = .element d.allocated := rfl

lemma map_append (d : CofiMap) (p : Option Ref) (target : Ref) (header : CofiHeader) :
    ((d.editCofiPtr p target).newListElement header).map = d.map := by
  cases p <;> rfl

@[simp] lemma cofi_setCofiPtr (d : CofiMap) (r target q : Ref) :
    ((d.setCofiPtr r target).heap q).cofi = (d.heap q).cofi := by
  by_cases hq : q = r
  · subst hq
    simp [setCofiPtr]
  · simp [setCofiPtr, hq]

@[simp] lemma cofi_setCofiTargetPtr (d : CofiMap) (r target q : Ref) :
    ((d.setCofiTargetPtr r target).heap q).cofi = (d.heap q).cofi := by
  by_cases hq : q = r
  · subst hq
    simp [setCofiTargetPtr]
  · simp [setCofiTargetPtr, hq]

lemma heap_newListElement_self (d : CofiMap) (header : CofiHeader) :
    (d.newListElement header).heap (.element d.allocated) =
      { pendingElement with cofi := header } := by
  simp [newListElement]

lemma heap_append (d : CofiMap) (p : Option Ref) (target : Ref) (header : CofiHeader) {r : Ref}
    (hr : r ≠ .element d.allocated) :
    (((d.editCofiPtr p target).newListElement header).heap r).cofi = (d.heap r).cofi ∧
      (((d.editCofiPtr p target).newListElement header).heap r).cofiTargetPtr =
        (d.heap r).cofiTargetPtr ∧
      (p ≠ some r → ((d.editCofiPtr p target).newListElement header).heap r = d.heap r) := by
  have hnew : ((d.editCofiPtr p target).newListElement header).heap r =
      (d.editCofiPtr p target).heap r := by
    simp [newListElement, Function.update_of_ne hr]
  rw [hnew]
  cases p with
  | none => exact ⟨rfl, rfl, fun _ => rfl⟩
  | some q =>
    by_cases hq : q = r
    · subst hq
      simp [editCofiPtr, setCofiPtr]
    · simp [editCofiPtr, setCofiPtr, Function.update_of_ne (Ne.symm hq)]

lemma map_mapPut_self (d : CofiMap) (a : UInt64) (r : Ref) :
    (d.mapPut a r).map (mapKey a) = some r := by
  simp [mapPut]

lemma map_mapPut_of_ne (d : CofiMap) {a : UInt64} (r : Ref) {k : UInt32} (h : k ≠ mapKey a) :
    (d.mapPut a r).map k = d.map k := by
  simp [mapPut, h]

def transfer (d : CofiMap) (addr : UInt64) (run new : CofiHeader) : CofiMap :=
  ((((d.setHeader d.listElement run).setCofiPtr d.listElement d.listElement).newListElement
    new).mapPut addr (.element d.allocated)).setCofiPtr d.listElement (.element d.allocated)

section Transfer

variable (d : CofiMap) (addr : UInt64) (run new : CofiHeader)

lemma heap_transfer_run (hne : d.listElement ≠ .element d.allocated) :
    (d.transfer addr run new).heap d.listElement =
      ⟨some (.element d.allocated), (d.heap d.listElement).cofiTargetPtr, run⟩ := by
  simp [transfer, setCofiPtr, setHeader, newListElement, mapPut, hne]

lemma heap_transfer_new (hne : d.listElement ≠ .element d.allocated) :
    (d.transfer addr run new).heap (.element d.allocated) = { pendingElement with cofi := new } := by
  simp [transfer, setCofiPtr, setHeader, newListElement, mapPut, hne.symm]

lemma heap_transfer_of_ne {r : Ref} (hrun : r ≠ d.listElement) (hnew : r ≠ .element d.allocated) :
    (d.transfer addr run new).heap r = d.heap r := by
  simp [transfer, setCofiPtr, setHeader, newListElement, mapPut, hrun, hnew]

end Transfer

end CofiMap

namespace Sweep

def opened (s : Sweep) (addr : UInt64) (ins : CsInsn) : Sweep :=
  if s.lastNop then s else s.append ⟨addr, 0, ins.size, .noCofiType⟩

lemma opened_fields (s : Sweep) (addr : UInt64) (ins : CsInsn) :
    (s.opened addr ins).address = s.address ∧ (s.opened addr ins).failedPage = s.failedPage := by
  unfold opened
  split <;> exact ⟨rfl, rfl⟩

/-- What a round makes of a sweep that has an element for its instruction. -/
inductive Visited (o : Sweep) (addr : UInt64) (ins : CsInsn) : Sweep ⊕ Sweep → Prop where
  | known {r : Ref} (hget : o.dis.mapGet addr = some r) :
    Visited o addr ins (.inr (o.linkKnown addr r))
  | plain (hget : o.dis.mapGet addr = none) (hclass : ins.opcodeAnalyzer = .noCofiType) :
    Visited o addr ins (.inl (o.addNoCofi addr))
  | branch (hget : o.dis.mapGet addr = none) (hclass : ins.opcodeAnalyzer ≠ .noCofiType) :
    Visited o addr ins (.inl (o.addBranch addr ins))
  | transfer (hget : o.dis.mapGet addr = none) (hclass : ins.opcodeAnalyzer ≠ .noCofiType)
    (htarget : ins.opcodeAnalyzer ≠ .conditionalBranch ∧
      ins.opcodeAnalyzer ≠ .unconditionalDirectBranch) :
    Visited o addr ins (.inr (o.addTransfer addr ins))

lemma visited (s : Sweep) (addr : UInt64) (ins : CsInsn) :
    Visited (s.opened addr ins) addr ins (s.visit addr ins) := by
  unfold visit
  dsimp only
  rw [← opened]
  cases hget : (s.opened addr ins).dis.mapGet addr with
  | some known => exact .known hget
  | none =>
    rcases ins.opcodeAnalyzer_cases with h | h | h | h | h | h <;> simp only [h]
    · exact .branch hget (by simp [h])
    · exact .branch hget (by simp [h])
    · exact .transfer hget (by simp [h]) (by simp [h])
    · exact .transfer hget (by simp [h]) (by simp [h])
    · exact .transfer hget (by simp [h]) (by simp [h])
    · exact .plain hget h

lemma dis_addTransferAfterNoCofi {s : Sweep} {addr : UInt64} (ins : CsInsn)
    (hrun : s.dis.map (mapKey s.lastNoCofiAddr) = some s.dis.listElement)
    (hnone : s.dis.map (mapKey addr) = none) :
    (s.addTransferAfterNoCofi addr ins).dis =
      s.dis.transfer addr ⟨s.lastNoCofiAddr, addr, 0, .noCofiType⟩
        ⟨addr, 0, ins.size, ins.opcodeAnalyzer⟩ := by
  have hne : mapKey s.lastNoCofiAddr ≠ mapKey addr := by
    intro heq
    rw [heq, hnone] at hrun
    cases hrun
  simp only [addTransferAfterNoCofi, setFirst, CofiMap.mapGet, CofiMap.map_mapPut_of_ne _ _ hne]
  simp only [CofiMap.newListElement, CofiMap.setCofiPtr, CofiMap.setHeader, hrun]
  rfl

end Sweep

section Invariant

variable (img : Image) (filter : AddrFilter)

/-- Code addresses differ in their lower 32 bits. -/
def Image.Distinct : Prop :=
  ∀ a b i j, img a = .insn i → img b = .insn j → mapKey a = mapKey b → a = b

/-- No walk inside one range goes from `a` to `b`. -/
def Leaves (a b : UInt64) : Prop :=
  (∀ ins, img b ≠ .insn ins) ∨ ∀ i, ¬((filter i).contains a ∧ (filter i).contains b)

/-- No walk inside a range comes to the address. -/
def Outside (a : UInt64) : Prop := (∀ ins, img a ≠ .insn ins) ∨ ∀ i, ¬(filter i).contains a

/-- The element `r` stands for the instruction at `a`. -/
def Describes (d : CofiMap) (a : UInt64) (ins : CsInsn) (r : Ref) : Prop :=
  match ins.opcodeAnalyzer with
  | .noCofiType =>
    d.mapGet (a + ins.size.toUInt64) = some r ∨
      ((d.heap r).cofi.type = .noCofiType ∧
        ∃ next, (d.heap r).cofiPtr = some next ∧ d.mapGet (a + ins.size.toUInt64) = some next) ∨
      Leaves img filter a (a + ins.size.toUInt64)
  | .conditionalBranch => (d.heap r).cofi = ⟨a, ins.target, ins.size, .conditionalBranch⟩
  | .unconditionalDirectBranch =>
    (d.heap r).cofi = ⟨a, ins.target, ins.size, .unconditionalDirectBranch⟩ ∧
      ∃ t, (d.heap r).cofiTargetPtr = some t ∧
        (t = .pendingObj ∨ d.mapGet ins.target = some t ∨
          (t = .oobObj ∨ t = .pageCacheFailedObj) ∧ Outside img filter ins.target)
  | type => (d.heap r).cofi.type = type

def Loose (d : CofiMap) (r : Ref) : Prop :=
  ∀ a ins, img a = .insn ins → d.mapGet a = some r → ins.opcodeAnalyzer = .noCofiType →
    d.mapGet (a + ins.size.toUInt64) = some r ∨ Leaves img filter a (a + ins.size.toUInt64)

/-- The static objects are untouched, and the map leads to allocated elements. -/
structure Shape (d : CofiMap) : Prop where
  pending : (d.heap .pendingObj).cofi.type = .disassemblyPending
  oob : (d.heap .oobObj).cofi.type = .outOfBounds
  failed : (d.heap .pageCacheFailedObj).cofi.type = .pageCacheFailed
  mapped : ∀ a r, d.mapGet a = some r → ∃ n < d.allocated, r = .element n
  last : ∃ n < d.allocated, d.listElement = .element n
  live : ∀ a r, d.mapGet a = some r → (d.heap r).cofi.type.Live
  fresh : ∀ n, d.allocated ≤ n → (d.heap (.element n)).cofi.type = .disassemblyPending

/-- The list describes the code. -/
structure Sound (d : CofiMap) : Prop extends Shape d where
  describes : ∀ a ins r, img a = .insn ins → d.mapGet a = some r → Describes img filter d a ins r
  loose : Loose img filter d d.listElement

/-- The list within a sweep that comes to `addr`: the last element is an open run of plain
instructions up to there. -/
structure Ready (d : CofiMap) (addr limit : UInt64) : Prop extends Shape d where
  describes : ∀ a ins r, img a = .insn ins → d.mapGet a = some r → r ≠ d.listElement →
    Describes img filter d a ins r
  type : (d.heap d.listElement).cofi.type = .noCofiType
  target : (d.heap d.listElement).cofiTargetPtr = some .pendingObj
  run : ∀ a ins, img a = .insn ins → d.mapGet a = some d.listElement →
    ins.opcodeAnalyzer = .noCofiType ∧
      (d.mapGet (a + ins.size.toUInt64) = some d.listElement ∨
        a + ins.size.toUInt64 = addr ∧ a ≤ limit)

variable {img filter}

variable {a : UInt64}

lemma Image.Distinct.eq (h : img.Distinct) {b : UInt64} {i j : CsInsn} (ha : img a = .insn i)
    (hb : img b = .insn j) (hkey : mapKey a = mapKey b) : a = b ∧ i = j := by
  obtain rfl := h a b i j ha hb hkey
  rw [ha] at hb
  cases hb
  exact ⟨rfl, rfl⟩

variable {d : CofiMap} {ins : CsInsn}

lemma Describes.frame {d' : CofiMap} {r : Ref} (h : Describes img filter d a ins r)
    (hext : d.Extends d') (hheap : d'.heap r = d.heap r) : Describes img filter d' a ins r := by
  rw [Describes] at h ⊢
  rw [hheap]
  cases hclass : ins.opcodeAnalyzer with
  | noCofiType =>
    simp only [hclass] at h ⊢
    rcases h with h | ⟨htype, next, hptr, hnext⟩ | h
    · exact .inl (hext _ _ h)
    · exact .inr (.inl ⟨htype, next, hptr, hext _ _ hnext⟩)
    · exact .inr (.inr h)
  | unconditionalDirectBranch =>
    simp only [hclass] at h ⊢
    obtain ⟨hheader, t, ht, htarget⟩ := h
    refine ⟨hheader, t, ht, ?_⟩
    rcases htarget with h | h | h
    · exact .inl h
    · exact .inr (.inl (hext _ _ h))
    · exact .inr (.inr h)
  | _ =>
    simp only [hclass] at h ⊢
    exact h

lemma Describes.of_loose {d' : CofiMap} {r : Ref} (h : Describes img filter d a ins r)
    (hext : d.Extends d') (hheader : (d'.heap r).cofi = (d.heap r).cofi)
    (htarget : (d'.heap r).cofiTargetPtr = (d.heap r).cofiTargetPtr) (hloose : Loose img filter d r)
    (hcode : img a = .insn ins) (hget : d.mapGet a = some r) : Describes img filter d' a ins r := by
  have hmid : Describes img filter { d' with heap := d.heap } a ins r := h.frame hext rfl
  rw [Describes] at hmid ⊢
  cases hclass : ins.opcodeAnalyzer with
  | noCofiType =>
    rcases hloose a ins hcode hget hclass with hrun | hleaves
    · exact .inl (hext _ _ hrun)
    · exact .inr (.inr hleaves)
  | _ =>
    simp only [hclass] at hmid ⊢
    simp only [hheader, htarget]
    exact hmid

lemma Loose.frame {d' : CofiMap} {r : Ref} (h : Loose img filter d r) (hext : d.Extends d')
    (hold : ∀ a ins, img a = .insn ins → d'.mapGet a = some r → d.mapGet a = some r) :
    Loose img filter d' r := by
  intro a ins hcode hget hclass
  rcases h a ins hcode (hold a ins hcode hget) hclass with hrun | hleaves
  · exact .inl (hext _ _ hrun)
  · exact .inr hleaves

lemma Shape.write {d' : CofiMap} (h : Shape d) (hmap : d'.map = d.map)
    (hallocated : d.allocated ≤ d'.allocated) (hlast : ∃ n < d'.allocated, d'.listElement = .element n)
    (hstatic : ∀ r, (∀ n < d'.allocated, r ≠ .element n) → (d'.heap r).cofi = (d.heap r).cofi)
    (htypes : ∀ n < d.allocated, (d.heap (.element n)).cofi.type.Live →
      (d'.heap (.element n)).cofi.type.Live) : Shape d' where
  pending := by rw [hstatic .pendingObj (by simp), h.pending]
  oob := by rw [hstatic .oobObj (by simp), h.oob]
  failed := by rw [hstatic .pageCacheFailedObj (by simp), h.failed]
  mapped := by
    intro a r hget
    rw [CofiMap.mapGet, hmap] at hget
    obtain ⟨n, hn, hr⟩ := h.mapped a r hget
    exact ⟨n, hn.trans_le hallocated, hr⟩
  last := hlast
  live := by
    intro a r hget
    rw [CofiMap.mapGet, hmap] at hget
    obtain ⟨n, hn, rfl⟩ := h.mapped a r hget
    exact htypes n hn (h.live a _ hget)
  fresh := by
    intro n hn
    rw [hstatic (.element n), h.fresh n (hallocated.trans hn)]
    intro m hm heq
    cases heq
    omega

lemma Shape.mapPut (h : Shape d) (a : UInt64)
    (hlive : (d.heap d.listElement).cofi.type.Live) : Shape (d.mapPut a d.listElement) where
  pending := h.pending
  oob := h.oob
  failed := h.failed
  last := h.last
  mapped := by
    intro b r hget
    by_cases hkey : mapKey b = mapKey a
    · have hr : d.listElement = r := by simpa [CofiMap.mapGet, CofiMap.mapPut, hkey] using hget
      exact hr ▸ h.last
    · rw [CofiMap.mapGet_mapPut_of_ne _ _ hkey] at hget
      exact h.mapped b r hget
  live := by
    intro b r hget
    by_cases hkey : mapKey b = mapKey a
    · have hr : d.listElement = r := by simpa [CofiMap.mapGet, CofiMap.mapPut, hkey] using hget
      exact hr ▸ hlive
    · rw [CofiMap.mapGet_mapPut_of_ne _ _ hkey] at hget
      exact h.live b r hget
  fresh := h.fresh

lemma Shape.listElement_ne (h : Shape d) : d.listElement ≠ .element d.allocated := by
  obtain ⟨n, hn, hlast⟩ := h.last
  rw [hlast]
  intro heq
  cases heq
  omega

lemma Shape.ne_of_mapGet (h : Shape d) {r : Ref}
    (hget : d.mapGet a = some r) : r ≠ .element d.allocated := by
  obtain ⟨n, hn, rfl⟩ := h.mapped a r hget
  intro heq
  cases heq
  omega

lemma Shape.append (h : Shape d) (p : Option Ref) (target : Ref)
    (header : CofiHeader) : Shape ((d.editCofiPtr p target).newListElement header) := by
  apply h.write
  · cases p <;> rfl
  · simp [CofiMap.newListElement]
  · exact ⟨d.allocated, by simp [CofiMap.newListElement], by simp [CofiMap.newListElement]⟩
  · intro r hr
    exact (CofiMap.heap_append d p target header (hr d.allocated (by simp))).1
  · intro n hn hlive
    have hne : Ref.element n ≠ .element d.allocated := by
      intro heq
      cases heq
      omega
    rwa [(CofiMap.heap_append d p target header hne).1]

lemma Describes.append (hd : Shape d) {p : Option Ref} (target : Ref) (header : CofiHeader)
    (hpred : ∀ r, p = some r → Loose img filter d r) {r : Ref} (h : Describes img filter d a ins r)
    (hcode : img a = .insn ins) (hget : d.mapGet a = some r) :
    Describes img filter ((d.editCofiPtr p target).newListElement header) a ins r := by
  have hext : d.Extends ((d.editCofiPtr p target).newListElement header) := by
    intro b r' hb
    simpa using hb
  obtain ⟨hheader, htarget, hsame⟩ := CofiMap.heap_append d p target header (hd.ne_of_mapGet hget)
  by_cases hp : p = some r
  · exact h.of_loose hext hheader htarget (hpred r hp) hcode hget
  · exact h.frame hext (hsame hp)

lemma Loose.append {r : Ref} (h : Loose img filter d r) (p : Option Ref)
    (target : Ref) (header : CofiHeader) :
    Loose img filter ((d.editCofiPtr p target).newListElement header) r := by
  apply h.frame
  · intro b r' hb
    simpa using hb
  · intro a ins _ hget
    simpa using hget

lemma Shape.setCofiPtr (h : Shape d) (r target : Ref) : Shape (d.setCofiPtr r target) := by
  apply h.write
  · rfl
  · rfl
  · exact h.last
  · intro q _
    rw [CofiMap.cofi_setCofiPtr]
  · intro n _ hlive
    rwa [CofiMap.cofi_setCofiPtr]

lemma Shape.setCofiTargetPtr (h : Shape d) (r target : Ref) :
    Shape (d.setCofiTargetPtr r target) := by
  apply h.write
  · rfl
  · rfl
  · exact h.last
  · intro q _
    rw [CofiMap.cofi_setCofiTargetPtr]
  · intro n _ hlive
    rwa [CofiMap.cofi_setCofiTargetPtr]

lemma Shape.setHeader (h : Shape d) {header : CofiHeader} (hlive : header.type.Live) :
    Shape (d.setHeader d.listElement header) := by
  obtain ⟨m, hm, hlast⟩ := h.last
  apply h.write
  · rfl
  · rfl
  · exact h.last
  · intro q hq
    have hne : q ≠ d.listElement := hlast ▸ hq m hm
    simp [CofiMap.setHeader, hne]
  · intro n _ hold
    by_cases hn : Ref.element n = d.listElement
    · rw [hn]
      simpa [CofiMap.setHeader] using hlive
    · simpa [CofiMap.setHeader, hn] using hold

lemma Loose.mapPut {p q : Ref} (h : Loose img filter d p) (hne : p ≠ q) {addr : UInt64}
    (hnone : d.mapGet addr = none) : Loose img filter (d.mapPut addr q) p := by
  apply h.frame (CofiMap.extends_mapPut q hnone)
  intro a ins _ hget
  by_cases hkey : mapKey a = mapKey addr
  · have hq : q = p := by simpa [CofiMap.mapGet, CofiMap.mapPut, hkey] using hget
    exact absurd hq.symm hne
  · rwa [CofiMap.mapGet_mapPut_of_ne _ _ hkey] at hget

lemma Shape.loose_allocated (h : Shape d) : Loose img filter d (.element d.allocated) :=
  fun _ _ _ hget => absurd rfl (h.ne_of_mapGet hget)

lemma describes_plain {r : Ref} (hclass : ins.opcodeAnalyzer = .noCofiType) :
    Describes img filter d a ins r ↔
      d.mapGet (a + ins.size.toUInt64) = some r ∨
        ((d.heap r).cofi.type = .noCofiType ∧
          ∃ next, (d.heap r).cofiPtr = some next ∧ d.mapGet (a + ins.size.toUInt64) = some next) ∨
        Leaves img filter a (a + ins.size.toUInt64) := by
  simp only [Describes, hclass]

lemma describes_header {target : UInt64} {r : Ref}
    (hheader : (d.heap r).cofi = ⟨a, target, ins.size, ins.opcodeAnalyzer⟩)
    (hptr : (d.heap r).cofiTargetPtr = some .pendingObj)
    (htarget : ins.opcodeAnalyzer = .conditionalBranch ∨
      ins.opcodeAnalyzer = .unconditionalDirectBranch → target = ins.target)
    (hclass : ins.opcodeAnalyzer ≠ .noCofiType) : Describes img filter d a ins r := by
  rw [Describes, hheader, hptr]
  cases htype : ins.opcodeAnalyzer with
  | noCofiType => exact absurd htype hclass
  | conditionalBranch => simp [htarget (.inl htype)]
  | unconditionalDirectBranch => simp [htarget (.inr htype)]
  | _ => simp

namespace Ready

variable {d : CofiMap} {addr limit : UInt64}

variable (h : Ready img filter d addr limit)
include h

lemma stop (hleaves : ∀ a, a ≤ limit → Leaves img filter a addr) : Sound img filter d := by
  have hrun : Loose img filter d d.listElement := by
    intro a ins hcode hget _
    obtain ⟨-, hnext | ⟨heq, hle⟩⟩ := h.run a ins hcode hget
    · exact .inl hnext
    · exact .inr (heq ▸ hleaves a hle)
  refine ⟨h.toShape, fun a ins r hcode hget => ?_, hrun⟩
  by_cases hr : r = d.listElement
  · subst hr
    have hclass := (h.run a ins hcode hget).1
    rw [describes_plain hclass]
    rcases hrun a ins hcode hget hclass with hnext | hout
    · exact .inl hnext
    · exact .inr (.inr hout)
  · exact h.describes a ins r hcode hget hr

lemma link {known : Ref} (hknown : d.mapGet addr = some known) {p : Option Ref}
    (hpred : ∀ q, p = some q → Loose img filter d q) (target : Ref) (header : CofiHeader) :
    Sound img filter
      (((d.setCofiPtr d.listElement known).editCofiPtr p target).newListElement header) := by
  have hshape := h.toShape.setCofiPtr d.listElement known
  have hlinked : ∀ a ins r, img a = .insn ins → d.mapGet a = some r →
      Describes img filter (d.setCofiPtr d.listElement known) a ins r := by
    intro a ins r hcode hget
    by_cases hr : r = d.listElement
    · subst hr
      obtain ⟨hclass, hnext | ⟨heq, -⟩⟩ := h.run a ins hcode hget
      · exact (describes_plain hclass).mpr (.inl hnext)
      · refine (describes_plain hclass).mpr (.inr (.inl ⟨?_, known, ?_, heq ▸ hknown⟩))
        · rw [CofiMap.cofi_setCofiPtr, h.type]
        · simp [CofiMap.setCofiPtr]
    · apply (h.describes a ins r hcode hget hr).frame
      · exact fun _ _ hb => hb
      · simp [CofiMap.setCofiPtr, hr]
  constructor
  · exact hshape.append p target header
  · intro a ins r hcode hget
    have hold : d.mapGet a = some r := by simpa using hget
    exact (hlinked a ins r hcode hold).append hshape target header hpred hcode hold
  · have hloose : Loose img filter (d.setCofiPtr d.listElement known) (.element d.allocated) :=
      hshape.loose_allocated
    simpa [CofiMap.newListElement, CofiMap.setCofiPtr] using hloose.append p target header

variable (hdistinct : img.Distinct) (hnone : d.mapGet addr = none)
include hdistinct hnone

lemma put {ins : CsInsn} (hcode : img addr = .insn ins)
    (hclass : ins.opcodeAnalyzer = .noCofiType) (hle : addr ≤ limit) :
    Ready img filter (d.mapPut addr d.listElement) (addr + ins.size.toUInt64) limit := by
  have hext := CofiMap.extends_mapPut d.listElement hnone
  constructor
  · exact h.toShape.mapPut addr (by rw [h.type]; trivial)
  · intro a i r ha hget hr
    have hkey : mapKey a ≠ mapKey addr := by
      intro hkey
      have heq : d.listElement = r := by simpa [CofiMap.mapGet, CofiMap.mapPut, hkey] using hget
      exact hr heq.symm
    rw [CofiMap.mapGet_mapPut_of_ne _ _ hkey] at hget
    exact (h.describes a i r ha hget hr).frame hext rfl
  · exact h.type
  · exact h.target
  · intro a i ha hget
    by_cases hkey : mapKey a = mapKey addr
    · obtain ⟨rfl, rfl⟩ := hdistinct.eq ha hcode hkey
      exact ⟨hclass, .inr ⟨rfl, hle⟩⟩
    · rw [CofiMap.mapGet_mapPut_of_ne _ _ hkey] at hget
      obtain ⟨hplain, hnext | ⟨heq, -⟩⟩ := h.run a i ha hget
      · exact ⟨hplain, .inl (hext _ _ hnext)⟩
      · exact ⟨hplain, .inl (heq ▸ CofiMap.mapGet_mapPut_self d addr d.listElement)⟩

lemma close {ins : CsInsn} (hcode : img addr = .insn ins) {target : UInt64}
    (htarget : ins.opcodeAnalyzer = .conditionalBranch ∨
      ins.opcodeAnalyzer = .unconditionalDirectBranch → target = ins.target)
    (hclass : ins.opcodeAnalyzer ≠ .noCofiType) :
    Sound img filter ((d.setHeader d.listElement
      ⟨addr, target, ins.size, ins.opcodeAnalyzer⟩).mapPut addr d.listElement) := by
  have hext : d.Extends ((d.setHeader d.listElement
      ⟨addr, target, ins.size, ins.opcodeAnalyzer⟩).mapPut addr d.listElement) :=
    CofiMap.extends_mapPut d.listElement hnone
  have hput : ((d.setHeader d.listElement
      ⟨addr, target, ins.size, ins.opcodeAnalyzer⟩).mapPut addr d.listElement).mapGet addr =
      some d.listElement := CofiMap.mapGet_mapPut_self _ _ _
  -- the plain instructions of the run end at the branch
  have hrun : ∀ a i, img a = .insn i → d.mapGet a = some d.listElement →
      i.opcodeAnalyzer = .noCofiType ∧ ((d.setHeader d.listElement
        ⟨addr, target, ins.size, ins.opcodeAnalyzer⟩).mapPut addr d.listElement).mapGet
          (a + i.size.toUInt64) = some d.listElement := by
    intro a i ha hget
    obtain ⟨hplain, hnext | ⟨heq, -⟩⟩ := h.run a i ha hget
    · exact ⟨hplain, hext _ _ hnext⟩
    · exact ⟨hplain, heq ▸ hput⟩
  constructor
  · apply (h.toShape.setHeader ins.live_opcodeAnalyzer).mapPut
    simpa [CofiMap.setHeader] using ins.live_opcodeAnalyzer
  · intro a i r ha hget
    by_cases hkey : mapKey a = mapKey addr
    · obtain ⟨rfl, rfl⟩ := hdistinct.eq ha hcode hkey
      obtain rfl : d.listElement = r := Option.some.inj (hput.symm.trans hget)
      apply describes_header _ _ htarget hclass
      · simp [CofiMap.setHeader, CofiMap.mapPut]
      · simpa [CofiMap.setHeader, CofiMap.mapPut] using h.target
    · rw [CofiMap.mapGet_mapPut_of_ne _ _ hkey] at hget
      by_cases hr : r = d.listElement
      · subst hr
        obtain ⟨hplain, hnext⟩ := hrun a i ha hget
        exact (describes_plain hplain).mpr (.inl hnext)
      · apply (h.describes a i r ha hget hr).frame hext
        simp [CofiMap.setHeader, CofiMap.mapPut, hr]
  · intro a i ha hget hplain
    by_cases hkey : mapKey a = mapKey addr
    · obtain ⟨rfl, rfl⟩ := hdistinct.eq ha hcode hkey
      exact absurd hplain hclass
    · rw [CofiMap.mapGet_mapPut_of_ne _ _ hkey] at hget
      exact .inl (hrun a i ha hget).2

lemma transfer {ins : CsInsn} (hcode : img addr = .insn ins)
    (htarget : ins.opcodeAnalyzer ≠ .conditionalBranch ∧
      ins.opcodeAnalyzer ≠ .unconditionalDirectBranch)
    (hclass : ins.opcodeAnalyzer ≠ .noCofiType) (run : UInt64) :
    Sound img filter (d.transfer addr ⟨run, addr, 0, .noCofiType⟩
      ⟨addr, 0, ins.size, ins.opcodeAnalyzer⟩) := by
  let e := d.transfer addr ⟨run, addr, 0, .noCofiType⟩ ⟨addr, 0, ins.size, ins.opcodeAnalyzer⟩
  have hne := h.toShape.listElement_ne
  have hext : d.Extends e := CofiMap.extends_mapPut _ hnone
  have hput : e.mapGet addr = some (.element d.allocated) := CofiMap.mapGet_mapPut_self _ _ _
  have hold : ∀ a, mapKey a ≠ mapKey addr → e.mapGet a = d.mapGet a :=
    fun a hkey => CofiMap.mapGet_mapPut_of_ne _ _ hkey
  have hshape : Shape e := by
    have hrun : Shape (d.setHeader d.listElement ⟨run, addr, 0, .noCofiType⟩) :=
      h.toShape.setHeader trivial
    have hnew := (hrun.setCofiPtr d.listElement d.listElement).append none d.listElement
      ⟨addr, 0, ins.size, ins.opcodeAnalyzer⟩
    exact (hnew.mapPut addr (by simpa [CofiMap.newListElement] using ins.live_opcodeAnalyzer)).setCofiPtr
      d.listElement (.element d.allocated)
  constructor
  · exact hshape
  · intro a i r ha hget
    by_cases hkey : mapKey a = mapKey addr
    · obtain ⟨rfl, rfl⟩ := hdistinct.eq ha hcode hkey
      obtain rfl : .element d.allocated = r := Option.some.inj (hput.symm.trans hget)
      have hnew := CofiMap.heap_transfer_new d a ⟨run, a, 0, .noCofiType⟩
        ⟨a, 0, i.size, i.opcodeAnalyzer⟩ hne
      apply describes_header (congrArg CofiList.cofi hnew) (congrArg CofiList.cofiTargetPtr hnew) _ hclass
      intro hbranch
      exact absurd hbranch (not_or.mpr htarget)
    · rw [hold a hkey] at hget
      by_cases hr : r = d.listElement
      · subst hr
        obtain ⟨hplain, hnext | ⟨heq, -⟩⟩ := h.run a i ha hget
        · exact (describes_plain hplain).mpr (.inl (hext _ _ hnext))
        · rw [describes_plain hplain, CofiMap.heap_transfer_run _ _ _ _ hne]
          exact .inr (.inl ⟨rfl, .element d.allocated, rfl, by rw [heq]; exact hput⟩)
      · apply (h.describes a i r ha hget hr).frame hext
        exact CofiMap.heap_transfer_of_ne _ _ _ _ hr (h.toShape.ne_of_mapGet hget)
  · intro a i ha hget hplain
    by_cases hkey : mapKey a = mapKey addr
    · obtain ⟨rfl, rfl⟩ := hdistinct.eq ha hcode hkey
      exact absurd hplain hclass
    · rw [hold a hkey] at hget
      exact absurd rfl (h.toShape.ne_of_mapGet hget)

end Ready

end Invariant

end Nyx.Pt
