import Nyx.Qemu.VirtualMemory

/-!
# Writes to guest virtual memory

`write_virtual_memory` and `write_virtual_shadow_memory` translate an address for every 4 KiB of the
data and write all of them behind it, wherever the page ends.
-/

namespace Nyx.Paging

/-- The pages that are mapped. -/
structure PageMap where
  phys : UInt64 → Option UInt64
  aligned : ∀ page p, phys page = some p → p &&& ~~~X86_64_PAGE_MASK = 0

/-- `address_space_rw` for a write: whether all of it hit memory, and the memory afterwards. -/
def addressSpaceRw (ram : UInt64 → Bool) (mem : PhysMem) (addr : UInt64) (data : ℕ → UInt8)
    (len : ℕ) : Bool × PhysMem :=
  ((List.range len).all fun i => ram (addr + UInt64.ofNat i), fun a =>
    if (a - addr).toNat < len ∧ ram a then data (a - addr).toNat else mem a)

inductive Outcome where
  | returned (r : Bool)
  /-- A failed assertion. -/
  | aborted
  deriving DecidableEq

/-- The variables of the write loop. -/
structure WriteState (μ : Type) where
  address : UInt64
  pos : ℕ
  counter : ℕ
  mem : μ

/-- A round of both loops: the next `l` bytes, by a function that either goes on or leaves. -/
def chunkStep {μ : Type} (write : UInt64 → ℕ → ℕ → μ → Bool × Outcome × μ) (s : WriteState μ) :
    WriteState μ ⊕ (Outcome × μ) :=
  if s.counter ≠ 0 then
    let l := min X86_64_PAGE_SIZE.toNat s.counter
    let res := write s.address s.pos l s.mem
    if res.1 then .inl ⟨s.address + UInt64.ofNat l, s.pos + l, s.counter - l, res.2.2⟩
    else .inr res.2
  else .inr (.returned true, s.mem)

def writeChunk (pages : PageMap) (ram : UInt64 → Bool) (data : ℕ → UInt8) (address : UInt64)
    (pos l : ℕ) (mem : PhysMem) : Bool × Outcome × PhysMem :=
  match pages.phys (address &&& X86_64_PAGE_MASK) with
  | none => (false, .returned false, mem)
  | some physAddr =>
    let res := addressSpaceRw ram mem (physAddr + (address &&& ~~~X86_64_PAGE_MASK))
      (fun i => data (pos + i)) l
    (res.1, .returned false, res.2)

def writeVirtualMemory (pages : PageMap) (ram : UInt64 → Bool) (address : UInt64)
    (data : ℕ → UInt8) (size : ℕ) (mem : PhysMem) : Option (Outcome × PhysMem) :=
  iterate (chunkStep (writeChunk pages ram data)) (size + 1) ⟨address, 0, size, mem⟩

/-- A RAM block and where the snapshot has its copy. -/
structure ShadowBlock where
  offset : UInt64
  usedLength : UInt64
  shadow : ℕ
  deriving DecidableEq

def ShadowBlock.Contains (b : ShadowBlock) (physaddr : UInt64) : Prop :=
  b.offset ≤ physaddr ∧ physaddr < b.offset + b.usedLength

instance (b : ShadowBlock) (physaddr : UInt64) : Decidable (b.Contains physaddr) :=
  inferInstanceAs (Decidable (_ ∧ _))

/-- The copies of the blocks of a snapshot. Blocks consist of whole pages, and their copies do not
overlap. -/
structure Shadow where
  blocks : List ShadowBlock
  offset_mod : ∀ b ∈ blocks, b.offset.toNat % 4096 = 0
  length_mod : ∀ b ∈ blocks, b.usedLength.toNat % 4096 = 0
  fits : ∀ b ∈ blocks, b.offset.toNat + b.usedLength.toNat < 2 ^ 64
  disjoint : ∀ b ∈ blocks, ∀ b' ∈ blocks, b ≠ b' →
    b.shadow + b.usedLength.toNat ≤ b'.shadow ∨ b'.shadow + b'.usedLength.toNat ≤ b.shadow

/-- The assertion that the address is one of a page holds for every caller here. -/
def fastReloadGetPhysmemShadowPtr (self : Shadow) (physaddr : UInt64) : Option ℕ :=
  (self.blocks.find? fun b => b.Contains physaddr).map fun b =>
    b.shadow + (physaddr - b.offset).toNat

def writeShadowChunk (pages : PageMap) (ram : UInt64 → Bool) (self : Shadow) (data : ℕ → UInt8)
    (address : UInt64) (pos l : ℕ) (mem : PhysMem × (ℕ → UInt8)) :
    Bool × Outcome × PhysMem × (ℕ → UInt8) :=
  match pages.phys (address &&& X86_64_PAGE_MASK) with
  | none => (false, .returned false, mem)
  | some physAddr =>
    let res := addressSpaceRw ram mem.1 (physAddr + (address &&& ~~~X86_64_PAGE_MASK))
      (fun i => data (pos + i)) l
    if res.1 then
      match fastReloadGetPhysmemShadowPtr self physAddr with
      | some shadowMemory =>
        (true, .returned true, res.2, blit mem.2
          (shadowMemory + (address &&& ~~~X86_64_PAGE_MASK).toNat) data pos l)
      | none => (false, .aborted, res.2, mem.2)
    else (false, .returned false, res.2, mem.2)

def writeVirtualShadowMemory (pages : PageMap) (ram : UInt64 → Bool) (self : Shadow)
    (address : UInt64) (data : ℕ → UInt8) (size : ℕ) (mem : PhysMem) (shadow : ℕ → UInt8) :
    Option (Outcome × PhysMem × (ℕ → UInt8)) :=
  iterate (chunkStep (writeShadowChunk pages ram self data)) (size + 1)
    ⟨address, 0, size, (mem, shadow)⟩

section AddressSpace

variable (ram : UInt64 → Bool) (mem : PhysMem) (addr : UInt64) (data : ℕ → UInt8) {len : ℕ}

lemma eq_add_sub (a addr : UInt64) : a = addr + UInt64.ofNat (a - addr).toNat := by
  rw [UInt64.ofNat_toNat, UInt64.add_comm, UInt64.sub_add_cancel]

lemma within_addressSpaceRw (len : ℕ) :
    Within mem (addressSpaceRw ram mem addr data len).2 (fun i => addr + UInt64.ofNat i) data
      len := by
  intro a
  simp only [addressSpaceRw]
  split
  · next h => exact .inr ⟨(a - addr).toNat, h.1, eq_add_sub a addr, rfl⟩
  · exact .inl rfl

lemma addressSpaceRw_eq (hlen : len ≤ 4096) (hram : ∀ i < len, ram (addr + UInt64.ofNat i)) :
    addressSpaceRw ram mem addr data len =
      (true, scatter mem (fun i => addr + UInt64.ofNat i) data len) := by
  have hstores : Stores mem (scatter mem (fun i => addr + UInt64.ofNat i) data len)
      (fun i => addr + UInt64.ofNat i) data len := by
    apply stores_scatter
    intro i hi j hj h
    have heq := congrArg UInt64.toNat ((UInt64.add_right_inj addr).mp h)
    rw [UInt64.toNat_ofNat', UInt64.toNat_ofNat'] at heq
    omega
  refine Prod.ext (by simpa [addressSpaceRw] using hram) (funext fun a => ?_)
  simp only [addressSpaceRw]
  by_cases ha : (a - addr).toNat < len
  · have hstored := hstores.stored _ ha
    have hin := hram _ ha
    rw [← eq_add_sub] at hstored hin
    rw [if_pos ⟨ha, hin⟩, hstored]
  · rw [if_neg (fun h => ha h.1), hstores.kept]
    rintro i hi rfl
    apply ha
    rw [UInt64.add_comm, UInt64.add_sub_cancel, UInt64.toNat_ofNat']
    omega

end AddressSpace

section Chunks

variable {μ : Type} {write : UInt64 → ℕ → ℕ → μ → Bool × Outcome × μ} {address : UInt64} {size : ℕ}
  {W : ℕ → μ → Prop} {s s' : WriteState μ}

/-- What is known at the start of a round: all rounds before it wrote whole pages. -/
structure ChunkInv (address : UInt64) (size : ℕ) (W : ℕ → μ → Prop) (s : WriteState μ) : Prop where
  sum : s.pos + s.counter = size
  mod : s.counter ≠ 0 → s.pos % 4096 = 0
  address : s.address = address + UInt64.ofNat s.pos
  mem : W s.pos s.mem

lemma ChunkInv.init {mem : μ} (h : W 0 mem) : ChunkInv address size W ⟨address, 0, size, mem⟩ :=
  ⟨by simp, fun _ => rfl, by simp, h⟩

def chunk (write : UInt64 → ℕ → ℕ → μ → Bool × Outcome × μ) (address : UInt64) (size pos : ℕ)
    (mem : μ) : Bool × Outcome × μ :=
  write (address + UInt64.ofNat pos) pos (min 4096 (size - pos)) mem

variable (write) in
lemma ChunkInv.chunk_eq (h : ChunkInv address size W s) :
    write s.address s.pos (min X86_64_PAGE_SIZE.toNat s.counter) s.mem =
      chunk write address size s.pos s.mem := by
  rw [chunk, ← h.address, show size - s.pos = s.counter by have := h.sum; omega]
  rfl

lemma chunks_run {mem : μ} {Q : Outcome × μ → Prop} (h₀ : W 0 mem)
    (hstep : ∀ pos m, pos % 4096 = 0 → pos < size → W pos m →
      W (pos + min 4096 (size - pos)) (chunk write address size pos m).2.2 ∧
        ((chunk write address size pos m).1 ∨ Q (chunk write address size pos m).2))
    (hdone : ∀ m, W size m → Q (.returned true, m)) :
    ∃ r, iterate (chunkStep write) (size + 1) ⟨address, 0, size, mem⟩ = some r ∧ Q r := by
  refine iterate_total (P := ChunkInv address size W) WriteState.counter ?_ (ChunkInv.init h₀)
    (Nat.le_refl size)
  intro s hs
  have hsum := hs.sum
  have hpage : X86_64_PAGE_SIZE.toNat = 4096 := rfl
  by_cases hc : s.counter ≠ 0
  · have hmod := hs.mod hc
    obtain ⟨hw, hgo⟩ := hstep s.pos s.mem hmod (by omega) hs.mem
    rw [chunkStep, if_pos hc]
    dsimp only
    rw [hs.chunk_eq write]
    by_cases hok : (chunk write address size s.pos s.mem).1
    · rw [if_pos hok]
      refine .inr ⟨_, rfl, ⟨by dsimp only; omega, by dsimp only; omega, ?_, ?_⟩, by dsimp only; omega⟩
      · rw [hs.address, UInt64.ofNat_add, UInt64.add_assoc]
      · rwa [show size - s.pos = s.counter by omega] at hw
    · rw [if_neg hok]
      exact .inl ⟨_, rfl, hgo.resolve_left hok⟩
  · have hmem := hs.mem
    rw [show s.pos = size by omega] at hmem
    rw [chunkStep, if_neg hc]
    exact .inl ⟨_, rfl, hdone s.mem hmem⟩

lemma chunks_invariant {mem : μ} (h₀ : W 0 mem)
    (hstep : ∀ pos m, pos % 4096 = 0 → pos < size → W pos m →
      W (pos + min 4096 (size - pos)) (chunk write address size pos m).2.2)
    (hmono : ∀ n m, n ≤ size → W n m → W size m) {o : Outcome} {mem' : μ}
    (h : iterate (chunkStep write) (size + 1) ⟨address, 0, size, mem⟩ = some (o, mem')) :
    W size mem' := by
  obtain ⟨r, hrun, hr⟩ := chunks_run (Q := fun r => W size r.2) h₀ (fun pos m hpos hlt hm =>
    ⟨hstep pos m hpos hlt hm, .inr (hmono _ _ (by omega) (hstep pos m hpos hlt hm))⟩) fun m hm => hm
  rw [h] at hrun
  cases hrun
  exact hr

end Chunks

def shift64 (a : UInt64) (n : ℕ) : UInt64 := a + UInt64.ofNat n

lemma shift64_zero (a : UInt64) : shift64 a 0 = a := by simp [shift64]

lemma shift64_add (a : UInt64) (m n : ℕ) : shift64 (shift64 a m) n = shift64 a (m + n) := by
  rw [shift64, shift64, shift64, UInt64.ofNat_add, UInt64.add_assoc]

def pageAt (address : UInt64) (j : ℕ) : UInt64 := shift64 (address &&& X86_64_PAGE_MASK) (4096 * j)

lemma pageBase_add (address : UInt64) (i : ℕ) :
    (address + UInt64.ofNat i) &&& X86_64_PAGE_MASK =
      pageAt address ((address.toNat % 4096 + i) / 4096) := by
  rw [← UInt64.toNat_inj, toNat_pageBase, pageAt, shift64, UInt64.toNat_add, UInt64.toNat_add,
    toNat_pageBase, UInt64.toNat_ofNat', UInt64.toNat_ofNat']
  omega

lemma pageOffset_add (address : UInt64) (i : ℕ) :
    (address + UInt64.ofNat i) &&& ~~~X86_64_PAGE_MASK =
      UInt64.ofNat ((address.toNat % 4096 + i) % 4096) := by
  rw [← UInt64.toNat_inj, toNat_pageOffset, UInt64.toNat_add, UInt64.toNat_ofNat',
    UInt64.toNat_ofNat']
  omega

section Places

variable (pages : PageMap) (self : Shadow) (address : UInt64)

def translation (a : UInt64) : UInt64 :=
  (pages.phys (a &&& X86_64_PAGE_MASK)).getD 0 + (a &&& ~~~X86_64_PAGE_MASK)

def shadowTranslation (a : UInt64) : ℕ :=
  ((pages.phys (a &&& X86_64_PAGE_MASK)).bind (fastReloadGetPhysmemShadowPtr self)).getD 0 +
    (a &&& ~~~X86_64_PAGE_MASK).toNat

def physAt (j : ℕ) : UInt64 := (pages.phys (pageAt address j)).getD 0

def shadowAt (j : ℕ) : ℕ :=
  ((pages.phys (pageAt address j)).bind (fastReloadGetPhysmemShadowPtr self)).getD 0

lemma translation_add (i : ℕ) :
    translation pages (address + UInt64.ofNat i) =
      pagedLoc shift64 (physAt pages address) 4096 (address.toNat % 4096) i := by
  rw [translation, pageBase_add, pageOffset_add]
  rfl

lemma shadowTranslation_add (i : ℕ) :
    shadowTranslation pages self (address + UInt64.ofNat i) =
      pagedLoc (· + ·) (shadowAt pages self address) 4096 (address.toNat % 4096) i := by
  have hlt : (address.toNat % 4096 + i) % 4096 < 2 ^ 64 := by omega
  rw [shadowTranslation, pageBase_add, pageOffset_add, UInt64.toNat_ofNat', Nat.mod_eq_of_lt hlt]
  rfl

end Places

/-- The pages of a range are mapped to different pages of the memory, each with a copy in the
snapshot. -/
structure Mapped (pages : PageMap) (ram : UInt64 → Bool) (snap : Shadow) (address : UInt64)
    (size : ℕ) : Prop where
  phys : ∀ i < size, ∃ p s, pages.phys ((address + UInt64.ofNat i) &&& X86_64_PAGE_MASK) = some p ∧
    fastReloadGetPhysmemShadowPtr snap p = some s
  ram : ∀ i < size, ram (translation pages (address + UInt64.ofNat i)) = true
  distinct : ∀ i < size, ∀ i' < size, ∀ p,
    pages.phys ((address + UInt64.ofNat i) &&& X86_64_PAGE_MASK) = some p →
    pages.phys ((address + UInt64.ofNat i') &&& X86_64_PAGE_MASK) = some p →
    (address.toNat % 4096 + i) / 4096 = (address.toNat % 4096 + i') / 4096

lemma PageMap.toNat_mod (pages : PageMap) {page p : UInt64} (h : pages.phys page = some p) :
    p.toNat % 4096 = 0 := by
  rw [← toNat_pageOffset, pages.aligned page p h]
  rfl

lemma shadowPtr_disjoint (self : Shadow) {p p' : UInt64} {s s' : ℕ} (hp : p.toNat % 4096 = 0)
    (hp' : p'.toNat % 4096 = 0) (hs : fastReloadGetPhysmemShadowPtr self p = some s)
    (hs' : fastReloadGetPhysmemShadowPtr self p' = some s') (hne : p ≠ p') :
    s + 4096 ≤ s' ∨ s' + 4096 ≤ s := by
  obtain ⟨b, hfind, rfl⟩ := Option.map_eq_some_iff.mp hs
  obtain ⟨b', hfind', rfl⟩ := Option.map_eq_some_iff.mp hs'
  have hb := List.mem_of_find?_eq_some hfind
  have hb' := List.mem_of_find?_eq_some hfind'
  have hin : b.Contains p := by simpa using List.find?_some hfind
  have hin' : b'.Contains p' := by simpa using List.find?_some hfind'
  have hle := UInt64.le_iff_toNat_le.mp hin.1
  have hle' := UInt64.le_iff_toNat_le.mp hin'.1
  have hlt := UInt64.lt_iff_toNat_lt.mp hin.2
  have hlt' := UInt64.lt_iff_toNat_lt.mp hin'.2
  have hfits := self.fits b hb
  have hfits' := self.fits b' hb'
  rw [UInt64.toNat_add, Nat.mod_eq_of_lt hfits] at hlt
  rw [UInt64.toNat_add, Nat.mod_eq_of_lt hfits'] at hlt'
  rw [UInt64.toNat_sub_of_le _ _ hin.1, UInt64.toNat_sub_of_le _ _ hin'.1]
  have hoff := self.offset_mod b hb
  have hoff' := self.offset_mod b' hb'
  have hlen := self.length_mod b hb
  have hlen' := self.length_mod b' hb'
  have hne' : p.toNat ≠ p'.toNat := fun h => hne (UInt64.toNat_inj.mp h)
  by_cases hbb : b = b'
  · subst hbb
    omega
  · have hdisjoint := self.disjoint b hb b' hb' hbb
    omega

section Write

variable {pages : PageMap} {ram : UInt64 → Bool} {self : Shadow} {address : UInt64} {size : ℕ}

/-- Where the code puts the bytes, in the memory and in the copy. -/
def writtenAt (pages : PageMap) (address : UInt64) (i : ℕ) : UInt64 :=
  chunkedLoc shift64 (physAt pages address) 4096 (address.toNat % 4096) i

def shadowWrittenAt (pages : PageMap) (self : Shadow) (address : UInt64) (i : ℕ) : ℕ :=
  chunkedLoc (· + ·) (shadowAt pages self address) 4096 (address.toNat % 4096) i

lemma writtenAt_add {pos i : ℕ} (hpos : pos % 4096 = 0) (hi : i < 4096) :
    writtenAt pages address (pos + i) =
      translation pages (address + UInt64.ofNat pos) + UInt64.ofNat i := by
  rw [translation_add]
  exact chunkedLoc_add _ _ (by omega) hpos hi shift64_add

lemma shadowWrittenAt_add {pos i : ℕ} (hpos : pos % 4096 = 0) (hi : i < 4096) :
    shadowWrittenAt pages self address (pos + i) =
      shadowTranslation pages self (address + UInt64.ofNat pos) + i := by
  rw [shadowTranslation_add]
  exact chunkedLoc_add _ _ (by omega) hpos hi Nat.add_assoc

lemma Mapped.translation_inj (h : Mapped pages ram self address size) :
    ∀ i < size, ∀ i' < size, translation pages (address + UInt64.ofNat i) =
      translation pages (address + UInt64.ofNat i') → i = i' := by
  intro i hi i' hi' heq
  obtain ⟨p, s, hp, -⟩ := h.phys i hi
  obtain ⟨p', s', hp', -⟩ := h.phys i' hi'
  have hmod := pages.toNat_mod hp
  have hmod' := pages.toNat_mod hp'
  have hsum := congrArg UInt64.toNat heq
  rw [translation, translation, hp, hp', pageOffset_add, pageOffset_add, Option.getD_some,
    Option.getD_some, UInt64.toNat_add, UInt64.toNat_add, UInt64.toNat_ofNat',
    UInt64.toNat_ofNat'] at hsum
  have hlt := p.toNat_lt
  have hlt' := p'.toNat_lt
  obtain rfl : p = p' := UInt64.toNat_inj.mp (by omega)
  have hpage := h.distinct i hi i' hi' p hp hp'
  omega

lemma Mapped.shadowTranslation_inj (h : Mapped pages ram self address size) :
    ∀ i < size, ∀ i' < size, shadowTranslation pages self (address + UInt64.ofNat i) =
      shadowTranslation pages self (address + UInt64.ofNat i') → i = i' := by
  intro i hi i' hi' heq
  obtain ⟨p, s, hp, hs⟩ := h.phys i hi
  obtain ⟨p', s', hp', hs'⟩ := h.phys i' hi'
  rw [shadowTranslation, shadowTranslation, hp, hp', Option.bind_some, Option.bind_some, hs, hs',
    pageOffset_add, pageOffset_add, Option.getD_some, Option.getD_some, UInt64.toNat_ofNat',
    UInt64.toNat_ofNat'] at heq
  by_cases hpp : p = p'
  · subst hpp
    have hpage := h.distinct i hi i' hi' p hp hp'
    rw [hs] at hs'
    cases hs'
    omega
  · have hdisjoint := shadowPtr_disjoint self (pages.toNat_mod hp) (pages.toNat_mod hp') hs hs' hpp
    omega

variable (pages ram address size) in
lemma within_chunk (mem : PhysMem) (data : ℕ → UInt8) {pos : ℕ} (hpos : pos % 4096 = 0) :
    Within mem (addressSpaceRw ram mem (translation pages (address + UInt64.ofNat pos))
        (fun i => data (pos + i)) (min 4096 (size - pos))).2
      (fun i => writtenAt pages address (pos + i)) (fun i => data (pos + i))
      (min 4096 (size - pos)) := by
  refine (within_addressSpaceRw ram mem _ _ _).congr fun i hi => ?_
  exact (writtenAt_add hpos (by omega)).symm

lemma Mapped.chunk_eq (hmap : Mapped pages ram self address size)
    (hloc : ∀ i < size, writtenAt pages address i = translation pages (address + UInt64.ofNat i))
    (mem : PhysMem) (data : ℕ → UInt8) {pos : ℕ} (hpos : pos % 4096 = 0) :
    addressSpaceRw ram (scatter mem (writtenAt pages address) data pos)
        (translation pages (address + UInt64.ofNat pos)) (fun i => data (pos + i))
        (min 4096 (size - pos)) =
      (true, scatter mem (writtenAt pages address) data (pos + min 4096 (size - pos))) := by
  rw [addressSpaceRw_eq _ _ _ _ (by omega), scatter_add]
  · rw [scatter_congr (fun i hi => (writtenAt_add hpos (by omega)).symm) fun i _ => rfl]
  · intro i hi
    rw [← writtenAt_add hpos (by omega), hloc _ (by omega)]
    exact hmap.ram _ (by omega)

lemma within_writeVirtualMemory (data : ℕ → UInt8) (mem : PhysMem) {o : Outcome} {mem' : PhysMem}
    (h : writeVirtualMemory pages ram address data size mem = some (o, mem')) :
    Within mem mem' (writtenAt pages address) data size := by
  refine chunks_invariant (W := fun n m => Within mem m (writtenAt pages address) data n)
    (fun a => .inl rfl) ?_ (fun n m hn hm => hm.mono hn) h
  intro pos m hpos hlt hm
  apply hm.trans
  have hchunk := within_chunk pages ram address size m data hpos
  simp only [chunk, writeChunk]
  split
  · exact fun a => .inl rfl
  · next p hp =>
    rw [translation, hp] at hchunk
    exact hchunk

lemma writeVirtualMemory_eq (hmap : Mapped pages ram self address size)
    (hloc : ∀ i < size, writtenAt pages address i = translation pages (address + UInt64.ofNat i))
    (data : ℕ → UInt8) (mem : PhysMem) :
    writeVirtualMemory pages ram address data size mem =
      some (.returned true, scatter mem (writtenAt pages address) data size) := by
  have hrun : ∃ r, writeVirtualMemory pages ram address data size mem = some r ∧
      r = (.returned true, scatter mem (writtenAt pages address) data size) := by
    refine chunks_run (W := fun n m => m = scatter mem (writtenAt pages address) data n) rfl ?_
      fun m hm => by rw [hm]
    rintro pos m hpos hlt rfl
    obtain ⟨p, s, hp, -⟩ := hmap.phys pos hlt
    have hchunk := hmap.chunk_eq hloc mem data hpos
    rw [translation, hp, Option.getD_some] at hchunk
    simp only [chunk, writeChunk, hp, hchunk, true_or, and_self]
  obtain ⟨r, hrun, rfl⟩ := hrun
  exact hrun

variable (pages self address size) in
lemma blit_chunk (shadow data : ℕ → UInt8) {pos : ℕ} (hpos : pos % 4096 = 0) :
    blit shadow (shadowTranslation pages self (address + UInt64.ofNat pos)) data pos
        (min 4096 (size - pos)) =
      scatter shadow (fun i => shadowWrittenAt pages self address (pos + i))
        (fun i => data (pos + i)) (min 4096 (size - pos)) := by
  rw [blit_eq_scatter]
  exact scatter_congr (fun i hi => (shadowWrittenAt_add hpos (by omega)).symm) fun i _ => rfl

lemma within_writeVirtualShadowMemory (data : ℕ → UInt8) (mem : PhysMem) (shadow : ℕ → UInt8)
    {o : Outcome} {mem' : PhysMem} {shadow' : ℕ → UInt8}
    (h : writeVirtualShadowMemory pages ram self address data size mem shadow =
      some (o, mem', shadow')) :
    Within shadow shadow' (shadowWrittenAt pages self address) data size := by
  refine chunks_invariant (W := fun n (m : PhysMem × (ℕ → UInt8)) =>
    Within shadow m.2 (shadowWrittenAt pages self address) data n)
    (fun a => .inl rfl) ?_ (fun n m hn hm => hm.mono hn) h
  intro pos m hpos hlt hm
  apply hm.trans
  simp only [chunk, writeShadowChunk]
  split
  · exact fun a => .inl rfl
  · next p hp =>
    split
    · split
      · next s hs =>
        have hblit := blit_chunk pages self address size m.2 data hpos
        rw [shadowTranslation, hp, Option.bind_some, hs, Option.getD_some] at hblit
        rw [hblit]
        exact within_scatter _ _ _ _
      · exact fun a => .inl rfl
    · exact fun a => .inl rfl

lemma writeVirtualShadowMemory_eq (hmap : Mapped pages ram self address size)
    (hloc : ∀ i < size, writtenAt pages address i = translation pages (address + UInt64.ofNat i))
    (data : ℕ → UInt8) (mem : PhysMem) (shadow : ℕ → UInt8) :
    writeVirtualShadowMemory pages ram self address data size mem shadow =
      some (.returned true, scatter mem (writtenAt pages address) data size,
        scatter shadow (shadowWrittenAt pages self address) data size) := by
  have hrun : ∃ r, writeVirtualShadowMemory pages ram self address data size mem shadow =
      some r ∧ r = (.returned true, scatter mem (writtenAt pages address) data size,
        scatter shadow (shadowWrittenAt pages self address) data size) := by
    refine chunks_run (W := fun n m => m = (scatter mem (writtenAt pages address) data n,
      scatter shadow (shadowWrittenAt pages self address) data n)) rfl ?_ fun m hm => by rw [hm]
    rintro pos m hpos hlt rfl
    obtain ⟨p, s, hp, hs⟩ := hmap.phys pos hlt
    have hchunk := hmap.chunk_eq hloc mem data hpos
    rw [translation, hp, Option.getD_some] at hchunk
    have hblit := blit_chunk pages self address size
      (scatter shadow (shadowWrittenAt pages self address) data pos) data hpos
    rw [shadowTranslation, hp, Option.bind_some, hs, Option.getD_some, ← scatter_add] at hblit
    simp only [chunk, writeShadowChunk, hp, hchunk, hs, if_true, hblit, true_or, and_self]
  obtain ⟨r, hrun, rfl⟩ := hrun
  exact hrun

/-- All the bytes of the data end up where the pages are, and nothing else changes. -/
def WritesRight (pages : PageMap) (ram : UInt64 → Bool) (address : UInt64) (size : ℕ) : Prop :=
  ∀ mem data, ∃ o mem', writeVirtualMemory pages ram address data size mem = some (o, mem') ∧
    Stores mem mem' (fun i => translation pages (address + UInt64.ofNat i)) data size

def ShadowWritesRight (pages : PageMap) (ram : UInt64 → Bool) (self : Shadow) (address : UInt64)
    (size : ℕ) : Prop :=
  ∀ mem shadow data, ∃ o mem' shadow',
    writeVirtualShadowMemory pages ram self address data size mem shadow =
      some (o, mem', shadow') ∧
    Stores shadow shadow' (fun i => shadowTranslation pages self (address + UInt64.ofNat i)) data size

/-- The address is that of a page, or the pages of the range follow each other in the memory and in
the copy. -/
def InOrder (pages : PageMap) (self : Shadow) (address : UInt64) (size : ℕ) : Prop :=
  address.toNat % 4096 = 0 ∨ ∀ j, 4096 * (j + 1) < address.toNat % 4096 + size →
    physAt pages address (j + 1) = shift64 (physAt pages address j) 4096 ∧
      shadowAt pages self address (j + 1) = shadowAt pages self address j + 4096

lemma inOrder_iff :
    InOrder pages self address size ↔
      (∀ i < size, writtenAt pages address i = translation pages (address + UInt64.ofNat i)) ∧
        ∀ i < size, shadowWrittenAt pages self address i =
          shadowTranslation pages self (address + UInt64.ofNat i) := by
  have hoff : address.toNat % 4096 < 4096 := Nat.mod_lt _ (by decide)
  simp only [translation_add, shadowTranslation_add, writtenAt, shadowWrittenAt]
  rw [chunkedLoc_eq_pagedLoc_iff _ _ hoff shift64_zero shift64_add,
    chunkedLoc_eq_pagedLoc_iff _ _ hoff Nat.add_zero Nat.add_assoc, ← or_and_left, InOrder]
  simp only [← forall_and]

theorem writesRight_iff (hmap : Mapped pages ram self address size) :
    WritesRight pages ram address size ∧ ShadowWritesRight pages ram self address size ↔
      InOrder pages self address size := by
  have hbytes : (0 : UInt8) ≠ 1 := by decide
  rw [inOrder_iff]
  constructor
  · rintro ⟨hmem, hshadow⟩
    have hall : ∀ (mem : PhysMem) data, ∃ mem',
        Stores mem mem' (fun i => translation pages (address + UInt64.ofNat i)) data size ∧
          Within mem mem' (writtenAt pages address) data size := by
      intro mem data
      obtain ⟨o, mem', hrun, hstores⟩ := hmem mem data
      exact ⟨mem', hstores, within_writeVirtualMemory data mem hrun⟩
    have hallShadow : ∀ (shadow data : ℕ → UInt8), ∃ shadow',
        Stores shadow shadow' (fun i => shadowTranslation pages self (address + UInt64.ofNat i)) data
            size ∧
          Within shadow shadow' (shadowWrittenAt pages self address) data size := by
      intro shadow data
      obtain ⟨o, mem', shadow', hrun, hstores⟩ := hshadow (fun _ => 0) shadow data
      exact ⟨shadow', hstores, within_writeVirtualShadowMemory data _ shadow hrun⟩
    exact ⟨fun i hi => eq_of_stores_of_within hbytes hall hi,
      fun i hi => eq_of_stores_of_within hbytes hallShadow hi⟩
  · rintro ⟨hloc, hshadowLoc⟩
    refine ⟨fun mem data => ⟨_, _, writeVirtualMemory_eq hmap hloc data mem, ?_⟩,
      fun mem shadow data =>
        ⟨_, _, _, writeVirtualShadowMemory_eq hmap hloc data mem shadow, ?_⟩⟩
    · rw [scatter_congr hloc fun i _ => rfl]
      exact stores_scatter hmap.translation_inj
    · rw [scatter_congr hshadowLoc fun i _ => rfl]
      exact stores_scatter hmap.shadowTranslation_inj

end Write

/-- Two pages of which the first is at `0x5000` and the second at the given page. -/
def twoPages (second : Fin 16) : PageMap where
  phys page := if page = 0x1000 then some 0x5000
    else if page = 0x2000 then some (UInt64.ofNat second.val * 0x1000) else none
  aligned page p h := by
    split at h
    · cases h
      decide
    · split at h
      · cases h
        revert second
        decide
      · cases h

def pagesApart : PageMap := twoPages 9

def oneBlock : Shadow where
  blocks := [⟨0, 0x10000, 0⟩]
  offset_mod := by decide
  length_mod := by decide
  fits := by decide
  disjoint := by decide

lemma mapped_twoPages {second : Fin 16} (h : second = 6 ∨ second = 9) :
    Mapped (twoPages second) (fun _ => true) oneBlock 0x1FFF 2 where
  phys i hi := by
    obtain rfl | rfl : i = 0 ∨ i = 1 := by omega
    · exact ⟨0x5000, 0x5000, rfl, by decide⟩
    · obtain rfl | rfl := h
      · exact ⟨0x6000, 0x6000, by decide, by decide⟩
      · exact ⟨0x9000, 0x9000, by decide, by decide⟩
  ram i hi := rfl
  distinct i hi i' hi' p hp hp' := by
    have hsame := hp.trans hp'.symm
    obtain rfl | rfl : i = 0 ∨ i = 1 := by omega
    all_goals obtain rfl | rfl : i' = 0 ∨ i' = 1 := by omega
    · rfl
    · obtain rfl | rfl := h <;> exact absurd hsame (by decide)
    · obtain rfl | rfl := h <;> exact absurd hsame (by decide)
    · rfl

/-- A write over the border of two pages that follow each other in the memory as well. -/
theorem writesRight_pagesInOrder :
    Mapped (twoPages 6) (fun _ => true) oneBlock 0x1FFF 2 ∧
      WritesRight (twoPages 6) (fun _ => true) 0x1FFF 2 ∧
      ShadowWritesRight (twoPages 6) (fun _ => true) oneBlock 0x1FFF 2 := by
  have hmap : Mapped (twoPages 6) (fun _ => true) oneBlock 0x1FFF 2 := mapped_twoPages (.inl rfl)
  refine ⟨hmap, (writesRight_iff hmap).mpr (.inr fun j hj => ?_)⟩
  have hoff : (0x1FFF : UInt64).toNat % 4096 = 0xFFF := by decide
  obtain rfl : j = 0 := by omega
  decide

theorem writeVirtualMemory_pagesApart :
    Mapped pagesApart (fun _ => true) oneBlock 0x1FFF 2 ∧
      translation pagesApart (0x1FFF + 1) = 0x9000 ∧
      (writeVirtualMemory pagesApart (fun _ => true) 0x1FFF (fun i => if i = 1 then 0xBB else 0xAA) 2
        fun _ => 0).map (fun r => (r.2 0x9000, r.2 0x6000)) = some (0, 0xBB) :=
  ⟨mapped_twoPages (.inr rfl), by decide +kernel, by decide +kernel⟩

end Nyx.Paging
