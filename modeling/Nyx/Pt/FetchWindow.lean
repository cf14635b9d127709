import Nyx.Lib.Bits
import Nyx.Lib.SlotTable
import Nyx.Pt.Decoder
import Nyx.Pt.Disassembler
import Nyx.Qemu.PageMapping

/-!
# The bytes that Capstone decodes

`page_cache_disassemble_iter`: if an instruction may reach into the next page, both pages are put
together in a buffer; without a next page Capstone gets the rest of the first one.
-/

namespace Nyx.Pt

open Nyx.Qemu
open PageCache (pageOffset pageCacheFetch)

/-- The page cache, and the buffer for code over two pages. -/
structure CodeCache where
  pages : MappedCache
  disassembleCache : ℕ → UInt8

/-- What guest and host answer to a fetch. -/
structure FetchEnv where
  outcome : DumpOutcome
  mappings : Mappings

def loadByte (files : PageFiles) (c : MappedCache) (ptr : UInt64) : Option UInt8 :=
  let offset := (ptr - c.pageData).toNat
  if offset / 0x1000 < c.cache.numPages.toNat then
    files.dump[offset / 0x1000]?.map fun page => page ⟨offset % 0x1000, Nat.mod_lt _ (by decide)⟩
  else none

def loadBytes (files : PageFiles) (c : MappedCache) (ptr : UInt64) (n : ℕ) : Option (List UInt8) :=
  (List.range n).mapM fun i => loadByte files c (ptr + UInt64.ofNat i)

def copyIn (cache : ℕ → UInt8) (pos : ℕ) (bytes : List UInt8) : ℕ → UInt8 :=
  blit cache pos (fun i => bytes.getD i 0) 0 bytes.length

def copyOut (cache : ℕ → UInt8) (start size : ℕ) : List UInt8 :=
  (List.range size).map fun i => cache (start + i)

/-- `cs_disasm_iter` in a mode: the instruction at the start of the code, if there is one. -/
abbrev Capstone := DisassemblerMode → List UInt8 → UInt64 → Option CsInsn

/-- What Capstone is given, and what it finds. -/
structure Disassembled where
  offered : Option (List UInt8)
  fetched : Fetched

def decode (csDisasmIter : Capstone) (mode : DisassemblerMode) (offered : List UInt8)
    (address : UInt64) (failure : Fetched) : Disassembled where
  offered := some offered
  fetched := match csDisasmIter mode offered address with
    | some ins => .insn ins
    | none => failure

/-- The last part for an address near the end of its page, which is in the buffer already. -/
def disassembleAcross (csDisasmIter : Capstone) (testMode : Bool) (mode : DisassemblerMode)
    (next : FetchEnv) (files : PageFiles) (self : CodeCache) (address : UInt64) :
    Option (Disassembled × PageFiles × CodeCache) :=
  let offset := (address &&& 0xFFF).toNat
  let codePtr := 0xf - (0xfff - offset)
  match self.pages.pageCacheFetch files (address + 0x1000) testMode next.outcome next.mappings with
  | (_, _, none) => none
  | (some code, files, some pages) =>
    match loadBytes files pages code 16 with
    | none => none
    | some high =>
      let cache := copyIn self.disassembleCache 16 high
      some (decode csDisasmIter mode (copyOut cache codePtr 16) address .invalid, files,
        ⟨pages, cache⟩)
  | (none, files, some pages) =>
    let codeSize := 0xfff - offset
    some (decode csDisasmIter mode (copyOut self.disassembleCache codePtr codeSize) address
      (.failed ((address + 0x1000) &&& cachePageMask)), files, { self with pages := pages })

/-- A call that tells the code that it gives to Capstone. `testMode` is set with
`EXPERIMENTAL_PAGE_FETCH`; there is no result if the process ends. -/
def pageCacheDisassembleIter (csDisasmIter : Capstone) (testMode : Bool) (mode : DisassemblerMode)
    (first next : FetchEnv) (files : PageFiles) (self : CodeCache) (address : UInt64) :
    Option (Disassembled × PageFiles × CodeCache) :=
  let offset := (address &&& 0xFFF).toNat
  match self.pages.pageCacheFetch files address testMode first.outcome first.mappings with
  | (_, _, none) => none
  | (none, files, some pages) => some (⟨none, .failed address⟩, files, { self with pages := pages })
  | (some code, files, some pages) =>
    if code = unmappedPage then
      some (⟨none, .failed address⟩, files, { self with pages := pages })
    else if 0x1000 - 16 ≤ offset then
      match loadBytes files pages (code + UInt64.ofNat (0x1000 - 16)) 16 with
      | none => none
      | some low =>
        disassembleAcross csDisasmIter testMode mode next files
          ⟨pages, copyIn self.disassembleCache 0 low⟩ address
    else
      match loadBytes files pages (code + UInt64.ofNat offset) 16 with
      | none => none
      | some offered =>
        some (decode csDisasmIter mode offered address .invalid, files, { self with pages := pages })

/-! ## What a fetch finds -/

/-- The page is in the table, or it can be loaded from the file or read from the guest. -/
def Available (files : PageFiles) (c : PageCache) (page : UInt64) (testMode : Bool)
    (o : DumpOutcome) : Prop :=
  c.lookup page ≠ none ∨ testMode = false ∧ (page ∈ files.address ∨ o.dumpPage.1 = true)

/-- The page is the entry `i` of the files. -/
structure Holds (files : PageFiles) (c : PageCache) (page : UInt64) (i : ℕ) (data : PageData) :
    Prop where
  address : files.address[i]? = some page
  dump : files.dump[i]? = some data
  mapped : i < c.numPages.toNat

section Fetch

variable {files : PageFiles} {c : PageCache} {page : UInt64} {testMode : Bool} {o : DumpOutcome}

lemma holds_of_lookup (hwf : files.WellFormed) (hc : PageCache.Loaded files.address c)
    {value : UInt64} (hvalue : c.lookup page = some value) :
    ∃ i data, value = pageOffset i ∧ Holds files c page i data := by
  obtain ⟨i, hi, rfl⟩ := hc.lookup.exists_entry hvalue
  have hlt : i < (files.address.take c.numPages.toNat).length :=
    (List.getElem?_eq_some_iff.mp hi).1
  rw [List.length_take, Nat.lt_min] at hlt
  rw [List.getElem?_take_of_lt hlt.1] at hi
  have hdump : i < files.dump.length := hwf.entries ▸ hlt.2
  exact ⟨i, files.dump[i], rfl, hi, List.getElem?_eq_getElem hdump, hlt.1⟩

lemma mem_of_lookup (hc : PageCache.Loaded files.address c) (hpage : c.lookup page ≠ none) :
    page ∈ files.address := by
  by_contra hmem
  exact hpage (hc.lookup.eq_none_iff.mpr fun h => hmem (List.mem_of_mem_take h))

/-- What a fetch that succeeds has done: the page is there, and no other one has been added. -/
structure Fetches (testMode : Bool) (files files' : PageFiles) (c c' : PageCache) (page : UInt64)
    (i : ℕ) (data : PageData) : Prop where
  holds : Holds files' c' page i data
  kept : PageCache.Kept files files' c'
  length : files'.address.length ≤ files.address.length + 1
  mem : ∀ page' ∈ files'.address, page' ∈ files.address ∨ page' = page
  test : testMode = true → c'.lookup = c.lookup

variable (hwf : files.WellFormed) (hroom : files.address.length + 1 < 2 ^ 32)
  (hc : PageCache.Loaded files.address c)

include hwf hroom hc in
lemma pageCacheFetch_of_available (h : Available files c (page &&& cachePageMask) testMode o) :
    ∃ files' c' i data, pageCacheFetch files c page testMode o =
        (some (pageOffset i), files', some c') ∧
      Fetches testMode files files' c c' (page &&& cachePageMask) i data := by
  obtain ⟨value, files', c', hfetch, hkept, hgrows, htest, hvalue, hsome⟩ :=
    PageCache.pageCacheFetch_spec hwf hroom hc page testMode o
  obtain ⟨value, rfl⟩ := Option.ne_none_iff_exists'.mp (hsome.mpr h)
  obtain ⟨i, data, rfl, hholds⟩ := holds_of_lookup hkept.wellFormed hkept.loaded (hvalue _ rfl)
  refine ⟨files', c', i, data, hfetch, hholds, hkept, ?_, ?_, htest⟩
  · rcases hgrows with h | h <;> simp [h]
  · rcases hgrows with h | h <;> simp +contextual [h]

include hwf hroom hc in
lemma pageCacheFetch_of_not_available (h : ¬Available files c (page &&& cachePageMask) testMode o) :
    ∃ files' c', pageCacheFetch files c page testMode o = (none, files', some c') := by
  obtain ⟨value, files', c', hfetch, -, -, -, -, hsome⟩ :=
    PageCache.pageCacheFetch_spec hwf hroom hc page testMode o
  obtain rfl : value = none := not_not.mp (hsome.not.mpr h)
  exact ⟨files', c', hfetch⟩

end Fetch

section Mapped

variable {files : PageFiles} {c : MappedCache} {page : UInt64} {testMode : Bool} {o : DumpOutcome}
  {m : Mappings}

lemma pageOffset_and_low (i : ℕ) : pageOffset i &&& 0xFFF = 0 := by
  have hmul : pageOffset i = UInt64.ofNat i * cachePageSize := by
    rw [pageOffset, UInt64.ofNat_mul]
    rfl
  rw [hmul]
  exact PageCache.mul_cachePageSize_and_low _

lemma offsets_of_loaded {address : List UInt64} (hc : PageCache.Loaded address c.relative) :
    c.cache.Offsets := by
  intro page value hvalue
  obtain ⟨i, -, rfl⟩ := hc.lookup.exists_entry hvalue
  exact pageOffset_and_low i

lemma mapped_of_fetch {value : Option UInt64} {files' : PageFiles} {d : PageCache} (m : Mappings)
    (hc : PageCache.Loaded files.address c.relative)
    (hfetch : pageCacheFetch files c.relative page testMode o = (value, files', some d)) :
    ∃ c', c.pageCacheFetch files page testMode o m =
        (value.map (c'.pageData + ·), files', some c') ∧
      c'.pageData ∈ c.pageData :: m.toList ∧ (value ≠ none → c'.relative = d) := by
  obtain ⟨result, c', hrun, hgone, hsome⟩ :=
    MappedCache.pageCacheFetch_relative files page testMode o m (offsets_of_loaded hc)
  rw [hfetch] at hrun hgone hsome
  cases c' with
  | none => cases hgone.mp rfl
  | some c' =>
    obtain ⟨hdata, rfl, hrelative⟩ := hsome c' rfl
    exact ⟨c', hrun, hdata, fun h => (Option.some.inj (hrelative (.inl (by simpa using h)))).symm⟩

lemma mapped_of_available (m : Mappings) (hwf : files.WellFormed)
    (hroom : files.address.length + 1 < 2 ^ 32) (hc : PageCache.Loaded files.address c.relative)
    (h : Available files c.cache (page &&& cachePageMask) testMode o) :
    ∃ files' c' i data, c.pageCacheFetch files page testMode o m =
        (some (c'.pageData + pageOffset i), files', some c') ∧
      c'.pageData ∈ c.pageData :: m.toList ∧
      Fetches testMode files files' c.relative c'.relative (page &&& cachePageMask) i data := by
  obtain ⟨files', d, i, data, hfetch, hfetches⟩ := pageCacheFetch_of_available hwf hroom hc h
  obtain ⟨c', hrun, hdata, hrelative⟩ := mapped_of_fetch m hc hfetch
  cases hrelative (Option.some_ne_none _)
  exact ⟨files', c', i, data, hrun, hdata, hfetches⟩

lemma loadByte_of_holds {i k : ℕ} {data : PageData} (h : Holds files c.relative page i data)
    (hk : k < 0x1000) :
    loadByte files c (c.pageData + pageOffset i + UInt64.ofNat k) =
      some (data ⟨k, hk⟩) := by
  have hi : i < 2 ^ 32 := Nat.lt_trans h.mapped c.relative.numPages.toNat_lt
  have hoffset : (c.pageData + pageOffset i + UInt64.ofNat k - c.pageData).toNat =
      i * 0x1000 + k := by
    rw [UInt64.add_assoc, UInt64.add_comm c.pageData, UInt64.add_sub_cancel, UInt64.toNat_add,
      PageCache.toNat_pageOffset hi, UInt64.toNat_ofNat_of_lt' (by simp [UInt64.size]; omega)]
    exact Nat.mod_eq_of_lt (by omega)
  have hdiv : (i * 0x1000 + k) / 0x1000 = i := by omega
  have hmod : (i * 0x1000 + k) % 0x1000 = k := by omega
  have hmapped : i < c.cache.numPages.toNat := h.mapped
  simp only [loadByte, hoffset, hdiv, hmod, if_pos hmapped, h.dump, Option.map_some]

lemma loadBytes_of_holds {i k n : ℕ} {data : PageData} (h : Holds files c.relative page i data)
    (hk : k + n ≤ 0x1000) :
    loadBytes files c (c.pageData + pageOffset i + UInt64.ofNat k) n =
      some ((List.range n).map fun j => data (Fin.ofNat 0x1000 (k + j))) := by
  apply mapM_some
  intro j hj
  have hlt : k + j < 0x1000 := by
    have := List.mem_range.mp hj
    omega
  have hptr : c.pageData + pageOffset i + UInt64.ofNat k + UInt64.ofNat j =
      c.pageData + pageOffset i + UInt64.ofNat (k + j) := by
    rw [UInt64.ofNat_add, UInt64.add_assoc]
  rw [hptr, loadByte_of_holds h hlt]
  congr 2
  exact Fin.ext (Nat.mod_eq_of_lt hlt).symm

end Mapped

/-! ## The window -/

/-- The byte of the guest's code at an address, as far as its page is in the cache. -/
def codeByte (files : PageFiles) (address : UInt64) : Option UInt8 :=
  files.dump[files.address.idxOf (address &&& cachePageMask)]?.map
    fun page => page (Fin.ofNat 0x1000 (address &&& 0xFFF).toNat)

section Address

variable {address : UInt64} {i : ℕ}

lemma toNat_and_low (address : UInt64) : (address &&& 0xFFF).toNat = address.toNat % 0x1000 := by
  exact Nat.and_two_pow_sub_one_eq_mod address.toNat 12

lemma toNat_and_mask (address : UInt64) :
    (address &&& cachePageMask).toNat = address.toNat / 0x1000 * 0x1000 := by
  have hlt := address.toNat_lt
  have hfield := and_mask address.toNat 12 52
  rw [UInt64.toNat_and]
  have hmask : cachePageMask.toNat = (2 ^ 52 - 1) * 2 ^ 12 := by decide
  rw [hmask, hfield, field]
  have hsmall : address.toNat / 2 ^ 12 < 2 ^ 52 := by omega
  rw [Nat.mod_eq_of_lt hsmall]
  rfl

lemma toNat_add_small (hi : i < 0x2000) :
    (address + UInt64.ofNat i).toNat = (address.toNat + i) % 2 ^ 64 := by
  rw [UInt64.toNat_add, UInt64.toNat_ofNat_of_lt' (by simp [UInt64.size]; omega)]

lemma add_same_page (address : UInt64) (hi : (address &&& 0xFFF).toNat + i < 0x1000) :
    (address + UInt64.ofNat i) &&& cachePageMask = address &&& cachePageMask ∧
      ((address + UInt64.ofNat i) &&& 0xFFF).toNat = (address &&& 0xFFF).toNat + i := by
  have hlt := address.toNat_lt
  rw [toNat_and_low] at hi
  rw [← UInt64.toNat_inj, toNat_and_mask, toNat_and_mask, toNat_and_low, toNat_and_low,
    toNat_add_small (by omega)]
  omega

lemma add_next_page (address : UInt64) (hi : 0x1000 ≤ (address &&& 0xFFF).toNat + i) (hsmall : i < 0x1000) :
    (address + UInt64.ofNat i) &&& cachePageMask = (address + 0x1000) &&& cachePageMask ∧
      ((address + UInt64.ofNat i) &&& 0xFFF).toNat = (address &&& 0xFFF).toNat + i - 0x1000 := by
  have hnext : (address + 0x1000).toNat = (address.toNat + 0x1000) % 2 ^ 64 := UInt64.toNat_add _ _
  rw [toNat_and_low] at hi
  rw [← UInt64.toNat_inj, toNat_and_mask, toNat_and_mask, toNat_and_low, toNat_and_low,
    toNat_add_small (by omega), hnext]
  omega

lemma next_page_ne (address : UInt64) :
    (address + 0x1000) &&& cachePageMask ≠ address &&& cachePageMask := by
  have hnext : (address + 0x1000).toNat = (address.toNat + 0x1000) % 2 ^ 64 := UInt64.toNat_add _ _
  rw [Ne, ← UInt64.toNat_inj, toNat_and_mask, toNat_and_mask, hnext]
  omega

end Address

section Window

variable {files files' : PageFiles} {c c' : MappedCache} {page : UInt64} {testMode : Bool}
  {o : DumpOutcome} {m : Mappings} {i : ℕ} {data : PageData} {address : UInt64}

lemma codeByte_of_entry (hwf : files.WellFormed) (haddress : files.address[i]? = some page)
    (hdump : files.dump[i]? = some data) (hpage : address &&& cachePageMask = page) :
    codeByte files address = some (data (Fin.ofNat 0x1000 (address &&& 0xFFF).toNat)) := by
  obtain ⟨hlt, rfl⟩ := List.getElem?_eq_some_iff.mp haddress
  rw [codeByte, hpage, hwf.nodup.idxOf_getElem i hlt, hdump]
  rfl

lemma Holds.of_extends {c : PageCache} (h : Holds files c page i data)
    (hextends : files.Extends files') :
    files'.address[i]? = some page ∧ files'.dump[i]? = some data := by
  obtain ⟨new, haddress, hdump⟩ := hextends
  have hlt := (List.getElem?_eq_some_iff.mp h.address).1
  have hlt' := (List.getElem?_eq_some_iff.mp h.dump).1
  rw [haddress, hdump, List.getElem?_append_left hlt, List.getElem?_append_left hlt']
  exact ⟨h.address, h.dump⟩

lemma available_of_fetches {page' : UInt64} (hc : PageCache.Loaded files.address c.relative)
    (h : Fetches testMode files files' c.relative c'.relative page i data) (hne : page' ≠ page) :
    Available files' c'.cache page' testMode o ↔ Available files c.cache page' testMode o := by
  cases testMode with
  | true =>
    have hlookup : c'.cache.lookup = c.cache.lookup := h.test rfl
    simp [Available, hlookup]
  | false =>
    have hmem : page' ∈ files'.address ↔ page' ∈ files.address := by
      constructor
      · intro hp
        exact (h.mem page' hp).resolve_right hne
      · obtain ⟨new, haddress, -⟩ := h.kept.extends_files
        intro hp
        rw [haddress]
        exact List.mem_append_left _ hp
    have hold : c.cache.lookup page' ≠ none → page' ∈ files.address :=
      fun hp => mem_of_lookup hc hp
    have hnew : c'.cache.lookup page' ≠ none → page' ∈ files'.address :=
      fun hp => mem_of_lookup h.kept.loaded hp
    rw [Available, Available, hmem]
    tauto

lemma ne_unmappedPage (hdata : c.pageData &&& 0xFFF = 0) :
    c.pageData + pageOffset i ≠ unmappedPage := by
  intro heq
  have hlow := congrArg UInt64.toNat hdata
  have hoffset := congrArg UInt64.toNat (pageOffset_and_low i)
  have hsum := congrArg UInt64.toNat heq
  rw [toNat_and_low] at hlow hoffset
  rw [UInt64.toNat_add] at hsum
  simp only [unmappedPage, UInt64.reduceToNat] at hlow hoffset hsum
  omega

/-- Capstone is given the code from the address on, this many bytes of it. -/
def Offers (files : PageFiles) (address : UInt64) (d : Disassembled) (size : ℕ) : Prop :=
  ∃ bytes, d.offered = some bytes ∧ bytes.length = size ∧
    ∀ i < size, bytes[i]? = codeByte files (address + UInt64.ofNat i)

lemma offers_map {d : Disassembled} {size : ℕ} {byte : ℕ → UInt8}
    (hoffered : d.offered = some ((List.range size).map byte))
    (hbyte : ∀ i < size, codeByte files (address + UInt64.ofNat i) = some (byte i)) :
    Offers files address d size := by
  refine ⟨_, hoffered, by simp, fun i hi => ?_⟩
  rw [hbyte i hi]
  simp [hi]

end Window

/-- If the page of the address is there, Capstone is given 16 bytes if these are there, and the rest
of the page if it needs the next one and that one is not there. -/
def OffersWindow (csDisasmIter : Capstone) (testMode : Bool) (mode : DisassemblerMode)
    (first next : FetchEnv) (files : PageFiles) (self : CodeCache) (address : UInt64) : Prop :=
  let offset := (address &&& 0xFFF).toNat
  let nextAvailable := Available files self.pages.cache ((address + 0x1000) &&& cachePageMask)
    testMode next.outcome
  Available files self.pages.cache (address &&& cachePageMask) testMode first.outcome →
    ∃ d files' self', pageCacheDisassembleIter csDisasmIter testMode mode first next files self
        address = some (d, files', self') ∧
      (offset + 16 ≤ 0x1000 ∨ nextAvailable → Offers files' address d 16) ∧
      (0x1000 ≤ offset + 16 → ¬nextAvailable → Offers files' address d (0x1000 - offset))

section Window

variable (csDisasmIter : Capstone) (mode : DisassemblerMode) {testMode : Bool}
  {first next : FetchEnv} {files : PageFiles} {self : CodeCache} {address : UInt64}

/-- A cache in order: the files, the table and the pointer to the last page agree, the mapping starts
at a page, and there is room for two more pages. -/
structure InOrder (files : PageFiles) (c : MappedCache) (first next : FetchEnv) : Prop where
  wellFormed : files.WellFormed
  loaded : PageCache.Loaded files.address c.relative
  room : files.address.length + 2 < 2 ^ 32
  pageData : c.pageData &&& 0xFFF = 0
  first : ∀ addr ∈ first.mappings.toList, addr &&& 0xFFF = 0
  next : ∀ addr ∈ next.mappings.toList, addr &&& 0xFFF = 0

lemma InOrder.ne_unmapped {c c' : MappedCache} (h : InOrder files c first next)
    (hdata : c'.pageData ∈ c.pageData :: first.mappings.toList) :
    c'.pageData + pageOffset i ≠ unmappedPage := by
  rcases List.mem_cons.mp hdata with heq | hmem
  · exact ne_unmappedPage (heq ▸ h.pageData)
  · exact ne_unmappedPage (h.first _ hmem)

variable (h : InOrder files self.pages first next)
  (hpage : Available files self.pages.cache (address &&& cachePageMask) testMode first.outcome)

include h hpage in
lemma offers_inside (hinside : (address &&& 0xFFF).toNat < 0x1000 - 16) :
    ∃ d files' self', pageCacheDisassembleIter csDisasmIter testMode mode first next files self
        address = some (d, files', self') ∧ Offers files' address d 16 := by
  have hroom := h.room
  obtain ⟨files', c', i, data, hfetch, hdata, hfetches⟩ :=
    mapped_of_available first.mappings h.wellFormed (by omega) h.loaded hpage
  have hload := loadBytes_of_holds (n := 16) hfetches.holds
    (show (address &&& 0xFFF).toNat + 16 ≤ 0x1000 by omega)
  have hrun : pageCacheDisassembleIter csDisasmIter testMode mode first next files self address =
      some (decode csDisasmIter mode ((List.range 16).map fun j =>
        data (Fin.ofNat 0x1000 ((address &&& 0xFFF).toNat + j))) address .invalid, files',
        { self with pages := c' }) := by
    simp only [pageCacheDisassembleIter, hfetch, if_neg (h.ne_unmapped hdata),
      if_neg (Nat.not_le.mpr hinside), hload]
  refine ⟨_, _, _, hrun, offers_map rfl fun j hj => ?_⟩
  obtain ⟨hsame, hlow⟩ := add_same_page (i := j) address (by omega)
  rw [codeByte_of_entry hfetches.kept.wellFormed hfetches.holds.address hfetches.holds.dump hsame,
    hlow]

lemma copyIn_inside {cache : ℕ → UInt8} {byte : ℕ → UInt8} {pos n k : ℕ} (hk : k < n) :
    copyIn cache pos ((List.range n).map byte) (pos + k) = byte k := by
  have hlength : k < ((List.range n).map byte).length := by simpa using hk
  rw [copyIn, blit_inside _ _ _ _ hlength, Nat.zero_add, List.getD_eq_getElem?_getD,
    List.getElem?_map, List.getElem?_range hk]
  rfl

lemma copyIn_before {cache : ℕ → UInt8} {high : List UInt8} {pos k : ℕ} (hk : k < pos) :
    copyIn cache pos high k = cache k := blit_outside _ _ _ (.inl hk)

variable (hend : 0x1000 - 16 ≤ (address &&& 0xFFF).toNat)

include h hpage hend

lemma run_atEnd :
    ∃ files' c' i data,
      Fetches testMode files files' self.pages.relative (MappedCache.relative c')
        (address &&& cachePageMask) i data ∧
      pageCacheDisassembleIter csDisasmIter testMode mode first next files self address =
        disassembleAcross csDisasmIter testMode mode next files'
          ⟨c', copyIn self.disassembleCache 0
            ((List.range 16).map fun j => data (Fin.ofNat 0x1000 (0x1000 - 16 + j)))⟩ address := by
  have hroom := h.room
  obtain ⟨files', c', i, data, hfetch, hdata, hfetches⟩ :=
    mapped_of_available first.mappings h.wellFormed (by omega) h.loaded hpage
  have hload := loadBytes_of_holds (k := 0x1000 - 16) (n := 16) hfetches.holds (by decide)
  refine ⟨files', c', i, data, hfetches, ?_⟩
  simp only [pageCacheDisassembleIter, hfetch, if_neg (h.ne_unmapped hdata), if_pos hend, hload]

lemma offers_across (hnext : Available files self.pages.cache
    ((address + 0x1000) &&& cachePageMask) testMode next.outcome) :
    ∃ d files' self', pageCacheDisassembleIter csDisasmIter testMode mode first next files self
        address = some (d, files', self') ∧ Offers files' address d 16 := by
  have hroom := h.room
  have hlow : (address &&& 0xFFF).toNat < 0x1000 := by
    rw [toNat_and_low]
    exact Nat.mod_lt _ (by decide)
  obtain ⟨files₁, c₁, i₁, data₁, hfetches₁, hrun⟩ :=
    run_atEnd csDisasmIter mode h hpage hend
  have hlength := hfetches₁.length
  have hnext₁ := (available_of_fetches h.loaded hfetches₁ (next_page_ne address)).mpr hnext
  obtain ⟨files₂, c₂, i₂, data₂, hfetch₂, -, hfetches₂⟩ := mapped_of_available
    next.mappings hfetches₁.kept.wellFormed (by omega) hfetches₁.kept.loaded hnext₁
  have hload := loadBytes_of_holds (k := 0) (n := 16) hfetches₂.holds (by decide)
  rw [show UInt64.ofNat 0 = 0 from rfl, UInt64.add_zero] at hload
  rw [hrun]
  simp only [disassembleAcross, hfetch₂, hload]
  refine ⟨_, _, _, rfl, offers_map rfl fun j hj => ?_⟩
  -- the byte comes from the first page up to its end, from the second one after it
  by_cases hsplit : (address &&& 0xFFF).toNat + j < 0x1000
  · obtain ⟨hsame, hbyte⟩ := add_same_page address hsplit
    obtain ⟨haddress, hdump⟩ := hfetches₁.holds.of_extends hfetches₂.kept.extends_files
    have hpos : 0xf - (0xfff - (address &&& 0xFFF).toNat) + j =
        0 + ((address &&& 0xFFF).toNat + j - (0x1000 - 16)) := by omega
    have hsum : 0x1000 - 16 + ((address &&& 0xFFF).toNat + j - (0x1000 - 16)) =
        (address &&& 0xFFF).toNat + j := by omega
    rw [codeByte_of_entry hfetches₂.kept.wellFormed haddress hdump hsame, hbyte,
      copyIn_before (by omega), hpos, copyIn_inside (by omega), hsum]
  · obtain ⟨hother, hbyte⟩ := add_next_page (i := j) address (by omega) (by omega)
    have hpos : 0xf - (0xfff - (address &&& 0xFFF).toNat) + j =
        16 + ((address &&& 0xFFF).toNat + j - 0x1000) := by omega
    rw [codeByte_of_entry hfetches₂.kept.wellFormed hfetches₂.holds.address hfetches₂.holds.dump
      hother, hbyte, hpos, copyIn_inside (by omega), Nat.zero_add]

lemma offered_atEnd (hnext : ¬Available files self.pages.cache
    ((address + 0x1000) &&& cachePageMask) testMode next.outcome) :
    ∃ d files' self' bytes, pageCacheDisassembleIter csDisasmIter testMode mode first next files
        self address = some (d, files', self') ∧
      d.offered = some bytes ∧ bytes.length = 0xfff - (address &&& 0xFFF).toNat := by
  have hroom := h.room
  obtain ⟨files₁, c₁, i₁, data₁, hfetches₁, hrun⟩ :=
    run_atEnd csDisasmIter mode h hpage hend
  have hlength := hfetches₁.length
  have hnext₁ := (available_of_fetches h.loaded hfetches₁ (next_page_ne address)).not.mpr hnext
  obtain ⟨files₂, d, hnone⟩ := pageCacheFetch_of_not_available hfetches₁.kept.wellFormed (by omega)
    hfetches₁.kept.loaded hnext₁
  obtain ⟨c₂, hfetch₂, -⟩ := mapped_of_fetch next.mappings hfetches₁.kept.loaded hnone
  rw [hrun]
  simp only [disassembleAcross, hfetch₂, Option.map_none]
  exact ⟨_, _, _, _, rfl, rfl, by simp [copyOut]⟩

end Window

/-- The window is right exactly where the last 16 bytes of a page are read together with the next
page. -/
theorem offersWindow_iff (csDisasmIter : Capstone) (testMode : Bool) (mode : DisassemblerMode)
    (first next : FetchEnv) (files : PageFiles) (self : CodeCache) (address : UInt64)
    (horder : InOrder files self.pages first next) :
    OffersWindow csDisasmIter testMode mode first next files self address ↔
      (Available files self.pages.cache (address &&& cachePageMask) testMode first.outcome →
        (address &&& 0xFFF).toNat < 0x1000 - 16 ∨
          Available files self.pages.cache ((address + 0x1000) &&& cachePageMask) testMode
            next.outcome) := by
  have hlow : (address &&& 0xFFF).toNat < 0x1000 := by
    rw [toNat_and_low]
    exact Nat.mod_lt _ (by decide)
  constructor
  · intro hwindow hpage
    by_contra hcase
    obtain ⟨hend, hnext⟩ := not_or.mp hcase
    obtain ⟨d, files', self', hrun, -, hrest⟩ := hwindow hpage
    obtain ⟨bytes, hoffered, hsize, -⟩ := hrest (by omega) hnext
    obtain ⟨d', files'', self'', bytes', hrun', hoffered', hsize'⟩ := offered_atEnd
      csDisasmIter mode horder hpage (Nat.le_of_not_lt hend) hnext
    rw [hrun, Option.some.injEq, Prod.mk.injEq] at hrun'
    rw [← hrun'.1, hoffered, Option.some.injEq] at hoffered'
    rw [← hoffered', hsize] at hsize'
    omega
  · intro hcondition hpage
    by_cases hinside : (address &&& 0xFFF).toNat < 0x1000 - 16
    · obtain ⟨d, files', self', hrun, hoffers⟩ := offers_inside csDisasmIter mode horder
        hpage hinside
      exact ⟨d, files', self', hrun, fun _ => hoffers, fun hend => by omega⟩
    · have hnext := (hcondition hpage).resolve_left hinside
      obtain ⟨d, files', self', hrun, hoffers⟩ := offers_across csDisasmIter mode horder
        hpage (Nat.le_of_not_lt hinside) hnext
      exact ⟨d, files', self', hrun, fun _ => hoffers, fun _ hnot => absurd hnext hnot⟩

def noPage : FetchEnv :=
  ⟨⟨.unmapped, .unmapped, .unmapped⟩, ⟨0x10000, 0x10000, 0x10000, 0x10000⟩⟩

def freshCache : CodeCache := ⟨MappedCache.new, fun _ => 0⟩

lemma noPage_aligned : ∀ addr ∈ noPage.mappings.toList, addr &&& 0xFFF = 0 := by
  intro addr haddr
  simp only [noPage, Mappings.toList, List.mem_cons, List.not_mem_nil, or_false, or_self] at haddr
  subst haddr
  rfl

lemma inOrder_fresh {files : PageFiles} (hwf : files.WellFormed)
    (hroom : files.address.length + 2 < 2 ^ 32) :
    InOrder files freshCache.pages noPage noPage where
  wellFormed := hwf
  loaded := PageCache.loaded_new files.address
  room := hroom
  pageData := rfl
  first := noPage_aligned
  next := noPage_aligned

lemma wellFormed_twoPages (p q : PageData) : PageFiles.WellFormed ⟨[0x1000, 0x2000], [p, q]⟩ where
  entries := rfl
  nodup := show [0x1000, 0x2000].Nodup by decide
  aligned := by
    intro page hpage
    simp only [List.mem_cons, List.not_mem_nil, or_false] at hpage
    obtain rfl | rfl := hpage
    · rfl
    · rfl

theorem offersWindow_twoPages :
    OffersWindow (fun _ _ _ => none) false .mode64 noPage noPage
      ⟨[0x1000, 0x2000], [fun _ => 0x90, fun _ => 0xc3]⟩ freshCache 0x1ff8 :=
  (offersWindow_iff _ _ _ _ _ _ _ _ (inOrder_fresh (wellFormed_twoPages _ _) (by decide))).mpr
    fun _ => .inr (.inr ⟨rfl, .inl (by decide)⟩)

/-- The page at `0x1000` is there, the next one is not. Of the 16 bytes at `0x1ff0` Capstone is given
15, and the return at `0x1fff` is not given to it at all. -/
theorem offersWindow_lastByte :
    ¬ OffersWindow (fun _ _ _ => none) false .mode64 noPage noPage
        ⟨[0x1000], [fun _ => 0xc3]⟩ freshCache 0x1ff0 ∧
      ¬ OffersWindow (fun _ _ _ => none) false .mode64 noPage noPage
        ⟨[0x1000], [fun _ => 0xc3]⟩ freshCache 0x1fff := by
  have hshort : ∀ address size, (pageCacheDisassembleIter (fun _ _ _ => none) false .mode64 noPage
      noPage ⟨[0x1000], [fun _ => 0xc3]⟩ freshCache address).map
        (fun r => r.1.offered.map List.length) = some (some size) →
      ∀ d files' self', pageCacheDisassembleIter (fun _ _ _ => none) false .mode64 noPage noPage
        ⟨[0x1000], [fun _ => 0xc3]⟩ freshCache address = some (d, files', self') →
      ¬ Offers files' address d (size + 1) := by
    rintro address size hsize d files' self' hrun ⟨bytes, hoffered, hlength, -⟩
    rw [hrun, Option.map_some, hoffered, Option.map_some, hlength] at hsize
    simp at hsize
  refine ⟨fun h => ?_, fun h => ?_⟩
  · obtain ⟨d, files', self', hrun, hwindow, -⟩ := h (.inr ⟨rfl, .inl (by decide)⟩)
    exact hshort 0x1ff0 15 (by decide +kernel) d files' self' hrun (hwindow (.inl (by decide)))
  · obtain ⟨d, files', self', hrun, -, hrest⟩ := h (.inr ⟨rfl, .inl (by decide)⟩)
    have hnone : ¬ Available ⟨[0x1000], [fun _ => 0xc3]⟩ freshCache.pages.cache
        ((0x1fff + 0x1000) &&& cachePageMask) false noPage.outcome := by
      rintro (hlookup | ⟨-, hmem | hdump⟩)
      · exact hlookup rfl
      · exact absurd hmem (by decide)
      · cases hdump
    exact hshort 0x1fff 0 (by decide +kernel) d files' self' hrun (hrest (by decide) hnone)

end Nyx.Pt
