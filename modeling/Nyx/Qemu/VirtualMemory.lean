import Nyx.Lib.Iterate
import Nyx.Lib.Scatter
import Nyx.Qemu.Paging

/-!
# Reads of guest virtual memory

`read_virtual_memory` translates an address, copies up to the end of its page and goes on behind it.
It looks for the marker of unmapped pages after clearing the low bits.
-/

namespace Nyx.Paging

def X86_64_PAGE_SIZE : UInt64 := 0x1000

def X86_64_PAGE_MASK : UInt64 := 0xFFFFFFFFFFFFF000

def isAddrMappedCr3 (mem : PhysMem) (address cr3 : UInt64) : Bool :=
  get48PagingPhysAddr mem cr3 address != INVALID

/-- The variables of the read loop. -/
structure ReadState where
  address : UInt64
  amountCopied : ℕ
  host : ℕ → UInt8

/-- One round of `read_virtual_memory`. The memory is the one that the address space of the CPU
shows; what it does not map reads as some byte, too. -/
def readVirtualStep (mem : PhysMem) (cr3 : UInt64) (data size : ℕ) (s : ReadState) :
    ReadState ⊕ (ℕ → UInt8) :=
  if s.amountCopied < size then
    let lenToCopy := min (size - s.amountCopied) X86_64_PAGE_SIZE.toNat
    let physAddr := get48PagingPhysAddr mem cr3 s.address &&& 0xFFFFFFFFFFFFF000
    if physAddr = 0xFFFFFFFFFFFFFFFF then
      let nextPage := (s.address &&& X86_64_PAGE_MASK) + X86_64_PAGE_SIZE
      let lenSkipped := min (nextPage - s.address).toNat (size - s.amountCopied)
      .inl ⟨s.address + UInt64.ofNat lenSkipped, s.amountCopied + lenSkipped,
        blit s.host (data + s.amountCopied) (fun _ => 0x20) 0 lenSkipped⟩
    else
      let physAddr := physAddr + (s.address &&& ~~~X86_64_PAGE_MASK)
      let remainingOnPage := X86_64_PAGE_SIZE - (s.address &&& ~~~X86_64_PAGE_MASK)
      let lenToCopy := min lenToCopy remainingOnPage.toNat
      .inl ⟨s.address + UInt64.ofNat lenToCopy, s.amountCopied + lenToCopy,
        blit s.host (data + s.amountCopied) (fun i => mem (physAddr + UInt64.ofNat i)) 0 lenToCopy⟩
  else .inr s.host

/-- The memory of the host after `read_virtual_memory`, which always returns `true`. -/
def readVirtualMemory (mem : PhysMem) (cr3 address : UInt64) (data size : ℕ) (host : ℕ → UInt8) :
    Option (ℕ → UInt8) :=
  iterate (readVirtualStep mem cr3 data size) (size + 1) ⟨address, 0, host⟩

section Pages

variable (a : UInt64)

lemma toNat_pageOffset : (a &&& ~~~X86_64_PAGE_MASK).toNat = a.toNat % 4096 := by
  rw [UInt64.toNat_and, show (~~~X86_64_PAGE_MASK).toNat = 2 ^ 12 - 1 by decide,
    Nat.and_two_pow_sub_one_eq_mod]

lemma toNat_pageBase : (a &&& X86_64_PAGE_MASK).toNat = a.toNat / 4096 * 4096 := by
  rw [toNat_mask (show X86_64_PAGE_MASK.toNat = (2 ^ 52 - 1) * 2 ^ 12 by decide), field]
  have hlt := a.toNat_lt
  omega

variable {a} {i : ℕ}

lemma toNat_add_in_page (h : a.toNat % 4096 + i < 4096) :
    (a + UInt64.ofNat i).toNat = a.toNat + i := by
  rw [UInt64.toNat_add, UInt64.toNat_ofNat']
  have hlt := a.toNat_lt
  omega

end Pages

lemma leaf_congr (mem : PhysMem) (cr3 : ℕ) {addr addr' : ℕ} (h : addr / 4096 = addr' / 4096) :
    leaf mem cr3 addr = leaf mem cr3 addr' := by
  have hentry : ∀ table low, 12 ≤ low → entryAt mem table addr low = entryAt mem table addr' low := by
    intro table low hlow
    obtain ⟨k, rfl⟩ := Nat.exists_eq_add_of_le hlow
    rw [entryAt, entryAt, Nat.pow_add, ← Nat.div_div_eq_div_mul, ← Nat.div_div_eq_div_mul,
      show 2 ^ 12 = 4096 from rfl, h]
  simp only [leaf, leaf4, leaf3, leaf2, hentry _ 39 (by decide), hentry _ 30 (by decide),
    hentry _ 21 (by decide), hentry _ 12 (by decide)]

lemma Leaf.returned_mod {l : Leaf} (addr : ℕ) (hbits : l.bits = 12 ∨ l.bits = 21 ∨ l.bits = 30) :
    l.returned addr % 4096 = addr % 4096 := by
  rw [show 4096 = 2 ^ 12 from rfl]
  apply Nat.eq_of_testBit_eq
  intro i
  simp only [Nat.testBit_mod_two_pow, Leaf.returned, Nat.testBit_or, testBit_field]
  by_cases hi : i < 12
  · have hlow : ¬(l.bits ≤ i ∧ i < l.bits + (49 - l.bits)) := by omega
    have hoffset : i < if l.bits = 12 then 12 else l.bits + 1 := by split <;> omega
    simp [hlow, hoffset]
  · simp [hi]

lemma Leaf.returned_div (l : Leaf) {addr addr' : ℕ} (h : addr / 4096 = addr' / 4096) :
    l.returned addr / 4096 = l.returned addr' / 4096 := by
  rw [show 4096 = 2 ^ 12 from rfl] at h ⊢
  apply Nat.eq_of_testBit_eq
  intro i
  have hbit := congrArg (fun n => n.testBit i) h
  simp only [Nat.testBit_div_two_pow] at hbit
  simp only [Nat.testBit_div_two_pow, Leaf.returned, Nat.testBit_or, Nat.testBit_mod_two_pow, hbit]

def physByte (mem : PhysMem) (cr3 a : UInt64) : UInt64 :=
  (get48PagingPhysAddr mem cr3 a &&& X86_64_PAGE_MASK) + (a &&& ~~~X86_64_PAGE_MASK)

section PhysByte

variable {mem : PhysMem} {cr3 a : UInt64} {i : ℕ}

lemma toNat_physByte : (physByte mem cr3 a).toNat =
    (get48PagingPhysAddr mem cr3 a).toNat / 4096 * 4096 + a.toNat % 4096 := by
  rw [physByte, UInt64.toNat_add, toNat_pageBase, toNat_pageOffset]
  have hlt := (get48PagingPhysAddr mem cr3 a).toNat_lt
  omega

lemma physByte_add (h : a.toNat % 4096 + i < 4096) :
    physByte mem cr3 (a + UInt64.ofNat i) = physByte mem cr3 a + UInt64.ofNat i := by
  have hpage : (a + UInt64.ofNat i).toNat / 4096 = a.toNat / 4096 := by
    rw [toNat_add_in_page h]
    omega
  have hdiv : (get48PagingPhysAddr mem cr3 (a + UInt64.ofNat i)).toNat / 4096 =
      (get48PagingPhysAddr mem cr3 a).toNat / 4096 := by
    rw [toNat_get48PagingPhysAddr, toNat_get48PagingPhysAddr, leaf_congr mem cr3.toNat hpage]
    cases hl : leaf mem cr3.toNat a.toNat with
    | none => rfl
    | some l => exact l.returned_div hpage
  have hlt := (get48PagingPhysAddr mem cr3 a).toNat_lt
  rw [← UInt64.toNat_inj, UInt64.toNat_add, toNat_physByte, toNat_physByte, hdiv,
    toNat_add_in_page h, UInt64.toNat_ofNat']
  omega

lemma physByte_of_mapped (h : isAddrMappedCr3 mem a cr3) :
    physByte mem cr3 a = get48PagingPhysAddr mem cr3 a := by
  have hvalid : get48PagingPhysAddr mem cr3 a ≠ INVALID := by simpa [isAddrMappedCr3] using h
  rw [← UInt64.toNat_inj, toNat_physByte]
  cases hl : leaf mem cr3.toNat a.toNat with
  | none =>
    rw [Ne, get48PagingPhysAddr_eq_invalid_iff, translate, hl] at hvalid
    exact absurd rfl hvalid
  | some l =>
    have hmod := l.returned_mod a.toNat (leaf_bits hl)
    rw [toNat_get48PagingPhysAddr, hl, returned_some]
    omega

end PhysByte

section Read

variable (mem : PhysMem) (cr3 : UInt64) (data : ℕ) {size : ℕ}

lemma readVirtualStep_eq {s : ReadState} (h : s.amountCopied < size) :
    ∃ len, 0 < len ∧ s.amountCopied + len ≤ size ∧
      readVirtualStep mem cr3 data size s =
        .inl ⟨s.address + UInt64.ofNat len, s.amountCopied + len,
          scatter s.host (fun i => data + s.amountCopied + i)
            (fun i => mem (physByte mem cr3 (s.address + UInt64.ofNat i))) len⟩ := by
  have hmarker : get48PagingPhysAddr mem cr3 s.address &&& 0xFFFFFFFFFFFFF000 ≠
      0xFFFFFFFFFFFFFFFF := by
    intro heq
    have hmod := congrArg (fun a => a.toNat % 4096) heq
    have hbase := toNat_pageBase (get48PagingPhysAddr mem cr3 s.address)
    simp only [X86_64_PAGE_MASK] at hbase
    simp only [hbase, Nat.mul_mod_left] at hmod
    exact absurd hmod (by decide)
  have hremaining : (X86_64_PAGE_SIZE - (s.address &&& ~~~X86_64_PAGE_MASK)).toNat =
      4096 - s.address.toNat % 4096 := by
    have hoffset := toNat_pageOffset s.address
    have hsize : X86_64_PAGE_SIZE.toNat = 4096 := rfl
    rw [UInt64.toNat_sub_of_le _ _ (by rw [UInt64.le_iff_toNat_le]; omega), hoffset, hsize]
  refine ⟨min (min (size - s.amountCopied) X86_64_PAGE_SIZE.toNat) (4096 - s.address.toNat % 4096),
    ?_, by omega, ?_⟩
  · have hsize : X86_64_PAGE_SIZE.toNat = 4096 := rfl
    omega
  · rw [readVirtualStep, if_pos h]
    dsimp only
    rw [if_neg hmarker, hremaining, blit_eq_scatter]
    refine congrArg (fun host => Sum.inl (ReadState.mk _ _ host)) (scatter_congr (fun i _ => rfl) ?_)
    intro i hi
    rw [physByte_add (by omega), Nat.zero_add, physByte, X86_64_PAGE_MASK]

lemma readVirtualMemory_eq (address : UInt64) (host : ℕ → UInt8) :
    readVirtualMemory mem cr3 address data size host =
      some (scatter host (fun i => data + i)
        (fun i => mem (physByte mem cr3 (address + UInt64.ofNat i))) size) := by
  let inv : ReadState → Prop := fun s =>
    s.amountCopied ≤ size ∧ s.address = address + UInt64.ofNat s.amountCopied ∧
      s.host = scatter host (fun i => data + i)
        (fun i => mem (physByte mem cr3 (address + UInt64.ofNat i))) s.amountCopied
  have hround : ∀ s, inv s → (∃ r, readVirtualStep mem cr3 data size s = .inr r ∧
      r = scatter host (fun i => data + i)
        (fun i => mem (physByte mem cr3 (address + UInt64.ofNat i))) size) ∨
      ∃ s', readVirtualStep mem cr3 data size s = .inl s' ∧ inv s' ∧
        size - s'.amountCopied < size - s.amountCopied := by
    rintro s ⟨hle, haddress, hhost⟩
    by_cases hlt : s.amountCopied < size
    · obtain ⟨len, hpos, hlen, heq⟩ := readVirtualStep_eq mem cr3 data hlt
      refine .inr ⟨_, heq, ⟨hlen, ?_, ?_⟩, by dsimp only; omega⟩
      · rw [haddress, UInt64.ofNat_add, UInt64.add_assoc]
      · simp only [scatter_add, ← hhost, haddress, UInt64.ofNat_add, UInt64.add_assoc,
          Nat.add_assoc]
    · refine .inl ⟨s.host, if_neg hlt, ?_⟩
      rw [hhost, show s.amountCopied = size by omega]
  have hinit : inv ⟨address, 0, host⟩ := ⟨by simp, by simp, rfl⟩
  obtain ⟨r, hr, rfl⟩ :=
    iterate_total (fun s => size - s.amountCopied) hround hinit (Nat.le_refl _)
  exact hr

def guestByte (mem : PhysMem) (cr3 a : UInt64) : UInt8 :=
  if isAddrMappedCr3 mem a cr3 then mem (get48PagingPhysAddr mem cr3 a) else 0x20

/-- The buffer is filled with the bytes of the guest and with spaces for what is not mapped, and
nothing else is written. -/
def ReadsRight (mem : PhysMem) (cr3 address : UInt64) (size : ℕ) : Prop :=
  ∀ data host, ∃ host', readVirtualMemory mem cr3 address data size host = some host' ∧
    Stores host host' (fun i => data + i)
      (fun i => guestByte mem cr3 (address + UInt64.ofNat i)) size

/-- An address is mapped, or the last page of the physical address space, where there is no memory,
has a space at its offset. -/
def ReadFits (mem : PhysMem) (cr3 a : UInt64) : Prop :=
  isAddrMappedCr3 mem a cr3 = true ∨ mem (0xFFFFFFFFFFFFF000 + (a &&& ~~~X86_64_PAGE_MASK)) = 0x20

lemma guestByte_eq_iff (a : UInt64) :
    mem (physByte mem cr3 a) = guestByte mem cr3 a ↔ ReadFits mem cr3 a := by
  cases h : isAddrMappedCr3 mem a cr3 with
  | true => simp [guestByte, ReadFits, h, physByte_of_mapped h]
  | false =>
    have hinvalid : get48PagingPhysAddr mem cr3 a = INVALID := by simpa [isAddrMappedCr3] using h
    simp [guestByte, ReadFits, h, physByte, hinvalid,
      show INVALID &&& X86_64_PAGE_MASK = 0xFFFFFFFFFFFFF000 by decide]

theorem readsRight_iff (address : UInt64) :
    ReadsRight mem cr3 address size ↔ ∀ i < size, ReadFits mem cr3 (address + UInt64.ofNat i) := by
  have hinj : ∀ data, ∀ i < size, ∀ j < size, data + i = data + j → i = j :=
    fun data i _ j _ h => Nat.add_left_cancel h
  constructor
  · intro h i hi
    obtain ⟨host', heq, hstores⟩ := h 0 fun _ => 0
    rw [readVirtualMemory_eq] at heq
    cases heq
    have hstored := hstores.stored i hi
    rw [scatter_apply (hinj 0) hi] at hstored
    exact (guestByte_eq_iff mem cr3 _).mp hstored
  · intro h data host
    refine ⟨_, readVirtualMemory_eq mem cr3 data address host, ?_⟩
    rw [scatter_congr (fun i _ => rfl) fun i hi => (guestByte_eq_iff mem cr3 _).mpr (h i hi)]
    exact stores_scatter (hinj data)

theorem readVirtualMemory_unmapped :
    isAddrMappedCr3 (fun _ => 0) 0x1000 0 = false ∧
      (readVirtualMemory (fun _ => 0) 0 0x1000 0 1 fun _ => 0xAA).map (fun host => host 0) =
        some 0 := by
  decide +kernel

end Read

end Nyx.Paging
