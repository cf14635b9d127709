import Nyx.Lib.IndexedList
import Mathlib.Algebra.Group.Nat.Defs
import Mathlib.Data.List.Induction

/-!
# The page cache that all QEMU processes share

`pt/page_cache.c`: the pages that the decoders have asked for are kept in a dump file, their
addresses in a second one. A process loads what it lacks, or adds it, under a file lock.
-/

namespace Nyx.Qemu

open Function

def cachePageSize : UInt64 := 0x1000

def cachePageMask : UInt64 := 0xFFFFFFFFFFFFF000

def unmappedPage : UInt64 := 0xFFFFFFFFFFFFFFFF

abbrev PageData := Fin 0x1000 → UInt8

/-- The files `page_cache.addr`, as its entries of eight bytes, and `page_cache.dump`, as its
pages. -/
structure PageFiles where
  address : List UInt64
  dump : List PageData

/-- The state of one process. Positions in the address file count entries, and `lastAddr` is kept
relative to the mapping of the dump file. -/
structure PageCache where
  lookup : UInt64 → Option UInt64
  addressPos : ℕ
  numPages : UInt32
  lastPage : UInt64
  lastAddr : UInt64

def pageCacheNew : PageCache := ⟨fun _ => none, 0, 0, 0xFFFFFFFFFFFFFFFF, 0xFFFFFFFFFFFFFFFF⟩

namespace PageFiles

def ftruncate (f : PageFiles) (pages : ℕ) : PageFiles :=
  { f with dump := f.dump.take pages ++ List.replicate (pages - f.dump.length) fun _ => 0 }

def store (f : PageFiles) (page : ℕ) (data : PageData) : PageFiles :=
  { f with dump := f.dump.set page data }

def writeAddress (f : PageFiles) (pos : ℕ) (page : UInt64) : PageFiles :=
  { f with address :=
      f.address.take pos ++ List.replicate (pos - f.address.length) 0 ++
        page :: f.address.drop (pos + 1) }

end PageFiles

/-- What one of the functions that copy a page from the guest does. -/
inductive DumpAttempt where
  | unmapped
  | readFailed (data : PageData)
  | read (data : PageData)

/-- The attempts with the filtered address space, the parent's and the parent's in the snapshot. -/
structure DumpOutcome where
  filter : DumpAttempt
  parent : DumpAttempt
  snapshot : DumpAttempt

namespace DumpOutcome

/-- Try one after the other until a page is read: whether that happens, and what has been written
last. -/
def run : List DumpAttempt → Bool × Option PageData
  | [] => (false, none)
  | .unmapped :: rest => run rest
  | .readFailed data :: rest => ((run rest).1, some ((run rest).2.getD data))
  | .read data :: _ => (true, some data)

def dumpPage (o : DumpOutcome) : Bool × Option PageData := run [o.filter, o.parent, o.snapshot]

lemma run_eq (l : List DumpAttempt) :
    (∃ data, run l = (true, some data)) ∨ ∃ written, run l = (false, written) := by
  induction l with
  | nil => exact .inr ⟨none, rfl⟩
  | cons attempt rest ih =>
    cases attempt with
    | unmapped => exact ih
    | readFailed data =>
      obtain ⟨data', hdata⟩ | ⟨written, hwritten⟩ := ih
      · exact .inl ⟨data', by simp [run, hdata]⟩
      · exact .inr ⟨some (written.getD data), by simp [run, hwritten]⟩
    | read data => exact .inl ⟨data, rfl⟩

end DumpOutcome

inductive AppendResult where
  | appended
  | failed
  | killed

inductive UpdateResult where
  | found (k : Option UInt64)
  | failed
  | killed

namespace PageCache

def loadAddress (s : (UInt64 → Option UInt64) × UInt64) (value : UInt64) :
    (UInt64 → Option UInt64) × UInt64 :=
  let addr := value &&& cachePageMask
  let offset := s.2 + 1
  if s.1 addr = none then
    if value &&& 0xFFF ≠ 0 then (s.1, offset)
    else (update s.1 addr (some ((offset - 1) * cachePageSize)), offset)
  else (s.1, offset)

def reloadAddresses (files : PageFiles) (self : PageCache) : Bool × PageCache :=
  let selfOffset := files.address.length * 8
  if selfOffset ≠ self.numPages.toNat * 8 then
    let loaded := (files.address.drop self.numPages.toNat).foldl loadAddress
      (self.lookup, self.numPages.toUInt64)
    (true, { self with
      lookup := loaded.1
      addressPos := max files.address.length self.numPages.toNat
      numPages := UInt32.ofNat (selfOffset / 8) })
  else (false, { self with addressPos := files.address.length })

def appendPage (files : PageFiles) (self : PageCache) (o : DumpOutcome) :
    AppendResult × PageFiles × PageCache :=
  -- `num_pages + 1` is computed with 32 bits; the mapping has as many pages as the file
  let mapped := (self.numPages + 1).toNat
  let files := files.ftruncate mapped
  match o.dumpPage with
  | (success, written) =>
    if written.isSome ∧ ¬self.numPages.toNat < mapped then
      -- the copy goes to an address outside of the mapping
      (.killed, files, self)
    else
      let files := match written with
        | some data => files.store self.numPages.toNat data
        | none => files
      if success then (.appended, files, { self with numPages := self.numPages + 1 })
      else (.failed, files.ftruncate self.numPages.toNat, self)

def addPage (files : PageFiles) (self : PageCache) (page : UInt64) (o : DumpOutcome) :
    UpdateResult × PageFiles × PageCache :=
  match appendPage files self o with
  | (.appended, files, self) =>
    let value := (self.numPages - 1).toUInt64 * cachePageSize
    (.found (some value), files.writeAddress self.addressPos page, { self with
      lookup := update self.lookup page (some value)
      addressPos := self.addressPos + 1 })
  | (.failed, files, self) => (.failed, files, self)
  | (.killed, files, self) => (.killed, files, self)

/-- The critical section; `page` is not in `lookup` when it is called. -/
def updatePageCache (files : PageFiles) (self : PageCache) (page : UInt64) (o : DumpOutcome) :
    UpdateResult × PageFiles × PageCache :=
  let (reloaded, self) := reloadAddresses files self
  let k := if reloaded then self.lookup page else none
  if k ≠ none then (.found k, files, self)
  else if self.lookup page = none ∧ (reloadAddresses files self).1 then
    let self := (reloadAddresses files self).2
    (.found (self.lookup page), files, self)
  else addPage files (if self.lookup page = none then (reloadAddresses files self).2 else self) page o

/-- `page_cache_fetch`: the address of the page, or `none` for a failure; the process is gone if it
is killed. -/
def pageCacheFetch (files : PageFiles) (self : PageCache) (page : UInt64) (testMode : Bool)
    (o : DumpOutcome) : Option UInt64 × PageFiles × Option PageCache :=
  let page := page &&& cachePageMask
  if self.lastPage = page then (some self.lastAddr, files, some self)
  else
    match self.lookup page with
    | some value => (some value, files, some { self with lastPage := page, lastAddr := value })
    | none =>
      if testMode then (none, files, some self)
      else
        match updatePageCache files self page o with
        | (.found (some value), files, self) =>
          (some value, files, some { self with lastPage := page, lastAddr := value })
        -- reads the value of an entry that does not exist
        | (.found none, files, _) => (none, files, none)
        | (.failed, files, self) => (none, files, some self)
        | (.killed, files, _) => (none, files, none)

section Lookup

def pageOffset (i : ℕ) : UInt64 := UInt64.ofNat (i * 0x1000)

def Lookup (loaded : List UInt64) (lookup : UInt64 → Option UInt64) : Prop :=
  ∃ index, Indexed loaded index ∧ ∀ page, lookup page = (index page).map pageOffset

def Aligned (page : UInt64) : Prop := page &&& cachePageMask = page

variable {loaded : List UInt64} {lookup : UInt64 → Option UInt64} {page : UInt64}

lemma aligned_and_mask (page : UInt64) : Aligned (page &&& cachePageMask) := by
  rw [Aligned, UInt64.and_assoc, UInt64.and_self]

lemma Aligned.and_low (h : Aligned page) : page &&& 0xFFF = 0 := by
  have hmask : cachePageMask &&& 0xFFF = 0 := rfl
  rw [← h, UInt64.and_assoc, hmask, UInt64.and_zero]

lemma Aligned.ne_initial (h : Aligned page) : (0xFFFFFFFFFFFFFFFF : UInt64) ≠ page := by
  rintro rfl
  exact absurd h (by rw [Aligned]; decide)

lemma toNat_pageOffset {i : ℕ} (hi : i < 2 ^ 32) : (pageOffset i).toNat = i * 0x1000 := by
  rw [pageOffset, UInt64.toNat_ofNat_of_lt' (by simp [UInt64.size]; omega)]

lemma ofNat_toNat_eq_toUInt64 (n : UInt32) : UInt64.ofNat n.toNat = n.toUInt64 := by
  rw [← UInt64.toNat_inj, UInt32.toNat_toUInt64]
  exact UInt64.toNat_ofNat_of_lt' (Nat.lt_trans n.toNat_lt (by decide))

lemma lookup_nil : Lookup [] fun _ => none := ⟨fun _ => none, indexed_nil, fun _ => rfl⟩

variable (h : Lookup loaded lookup)
include h

lemma Lookup.push (hpage : page ∉ loaded) :
    Lookup (loaded ++ [page]) (update lookup page (some (pageOffset loaded.length))) := by
  obtain ⟨index, hindex, hlookup⟩ := h
  refine ⟨_, hindex.push hpage, ?_⟩
  intro page'
  by_cases heq : page' = page
  · subst heq
    simp
  · rw [update_of_ne heq, update_of_ne heq, hlookup]

lemma Lookup.eq_none_iff : lookup page = none ↔ page ∉ loaded := by
  obtain ⟨index, hindex, hlookup⟩ := h
  rw [hlookup, Option.map_eq_none_iff]
  constructor
  · intro hnone hmem
    obtain ⟨i, hi⟩ := hindex.exists_index hmem
    rw [hnone] at hi
    cases hi
  · intro hmem
    cases hi : index page with
    | none => rfl
    | some i => exact absurd (hindex.mem hi) hmem

lemma Lookup.exists_entry {offset : UInt64} (hoffset : lookup page = some offset) :
    ∃ i, loaded[i]? = some page ∧ offset = pageOffset i := by
  obtain ⟨index, hindex, hlookup⟩ := h
  rw [hlookup, Option.map_eq_some_iff] at hoffset
  obtain ⟨i, hi, rfl⟩ := hoffset
  exact ⟨i, (hindex page i).mp hi, rfl⟩

lemma Lookup.eq_some {i : ℕ} (hi : loaded[i]? = some page) : lookup page = some (pageOffset i) := by
  obtain ⟨index, hindex, hlookup⟩ := h
  rw [hlookup, (hindex page i).mpr hi]
  rfl

lemma Lookup.mono {rest : List UInt64} {lookup' : UInt64 → Option UInt64} {offset : UInt64}
    (h' : Lookup (loaded ++ rest) lookup') (hoffset : lookup page = some offset) :
    lookup' page = some offset := by
  obtain ⟨i, hi, rfl⟩ := h.exists_entry hoffset
  have hlt : i < loaded.length := (List.getElem?_eq_some_iff.mp hi).1
  apply h'.eq_some
  rw [List.getElem?_append_left hlt, hi]

lemma loadAddress_eq (hpage : page ∉ loaded) (haligned : Aligned page) :
    loadAddress (lookup, UInt64.ofNat loaded.length) page =
      (update lookup page (some (pageOffset loaded.length)),
        UInt64.ofNat (loaded ++ [page]).length) := by
  have hoffset : UInt64.ofNat loaded.length * cachePageSize = pageOffset loaded.length := by
    rw [pageOffset, UInt64.ofNat_mul]
    rfl
  have hnone : lookup page = none := h.eq_none_iff.mpr hpage
  have hlow : ¬page &&& 0xFFF ≠ 0 := not_not.mpr haligned.and_low
  simp only [loadAddress, show page &&& cachePageMask = page from haligned, if_pos hnone,
    if_neg hlow, UInt64.add_sub_cancel, hoffset, List.length_append, List.length_singleton,
    UInt64.ofNat_add]
  rfl

lemma Lookup.foldl_loadAddress {rest : List UInt64}
    (hnodup : (loaded ++ rest).Nodup) (haligned : ∀ page ∈ rest, Aligned page) :
    Lookup (loaded ++ rest)
      (rest.foldl loadAddress (lookup, UInt64.ofNat loaded.length)).1 := by
  induction rest generalizing loaded lookup with
  | nil => simpa using h
  | cons page rest ih =>
    have hpage : page ∉ loaded := by
      intro hmem
      exact (List.nodup_append.mp hnodup).2.2 page hmem page (by simp) rfl
    rw [List.append_cons] at hnodup ⊢
    rw [List.foldl_cons, loadAddress_eq h hpage (haligned page (by simp))]
    exact ih (h.push hpage) hnodup (fun page' hp => haligned page' (by simp [hp]))

end Lookup

/-- What a process knows of the address file. -/
structure Loaded (address : List UInt64) (c : PageCache) : Prop where
  le : c.numPages.toNat ≤ address.length
  lookup : Lookup (address.take c.numPages.toNat) c.lookup
  last : c.lastPage = 0xFFFFFFFFFFFFFFFF ∨ c.lookup c.lastPage = some c.lastAddr

/-- The cache has read the whole file. -/
structure Current (address : List UInt64) (c : PageCache) : Prop where
  eq : c.numPages.toNat = address.length
  pos : c.addressPos = address.length
  lookup : Lookup address c.lookup
  last : c.lastPage = 0xFFFFFFFFFFFFFFFF ∨ c.lookup c.lastPage = some c.lastAddr

end PageCache

/-- One dump for each page, and no page twice. -/
structure PageFiles.WellFormed (f : PageFiles) : Prop where
  entries : f.address.length = f.dump.length
  nodup : f.address.Nodup
  aligned : ∀ page ∈ f.address, PageCache.Aligned page

/-- Pages are added to the files together with their addresses. -/
def PageFiles.Extends (f f' : PageFiles) : Prop :=
  ∃ new : List (UInt64 × PageData),
    f'.address = f.address ++ new.map Prod.fst ∧ f'.dump = f.dump ++ new.map Prod.snd

lemma PageFiles.Extends.refl (f : PageFiles) : f.Extends f := ⟨[], by simp⟩

lemma PageFiles.ftruncate_ftruncate {f : PageFiles} {pages : ℕ} (h : f.dump.length = pages) :
    (f.ftruncate (pages + 1)).ftruncate pages = f := by
  subst h
  cases f
  simp [ftruncate, List.take_of_length_le]

lemma PageFiles.store_ftruncate {f : PageFiles} {pages : ℕ} (h : f.dump.length = pages)
    (data : PageData) :
    (f.ftruncate (pages + 1)).store pages data = { f with dump := f.dump ++ [data] } := by
  subst h
  simp [ftruncate, store, List.take_of_length_le]

lemma PageFiles.ftruncate_store {f : PageFiles} {pages : ℕ} (h : f.dump.length = pages)
    (data : PageData) : ((f.ftruncate (pages + 1)).store pages data).ftruncate pages = f := by
  rw [store_ftruncate h]
  subst h
  cases f
  simp [ftruncate]

lemma PageFiles.writeAddress_length {f : PageFiles} (page : UInt64) :
    f.writeAddress f.address.length page = { f with address := f.address ++ [page] } := by
  simp [writeAddress]

namespace PageCache

variable {files : PageFiles} {c : PageCache} {page : UInt64} {o : DumpOutcome}

lemma loaded_new (address : List UInt64) : Loaded address pageCacheNew := by
  constructor
  · exact Nat.zero_le _
  · exact lookup_nil
  · exact .inl rfl

lemma Current.loaded {address : List UInt64} (h : Current address c) : Loaded address c := by
  constructor
  · exact Nat.le_of_eq h.eq
  · rw [h.eq, List.take_length]
    exact h.lookup
  · exact h.last

lemma Loaded.append {address : List UInt64} (h : Loaded address c) (rest : List UInt64) :
    Loaded (address ++ rest) c := by
  constructor
  · rw [List.length_append]
    exact Nat.le_add_right_of_le h.le
  · rw [List.take_append_of_le_length h.le]
    exact h.lookup
  · exact h.last

section Update

variable (hnodup : files.address.Nodup) (haligned : ∀ page ∈ files.address, Aligned page)
  (hlen : files.address.length < 2 ^ 32) (hc : Loaded files.address c)

include hc in
lemma reloadAddresses_of_eq (h : c.numPages.toNat = files.address.length) :
    reloadAddresses files c = (false, { c with addressPos := files.address.length }) ∧
      Current files.address (reloadAddresses files c).2 := by
  have heq : reloadAddresses files c =
      (false, { c with addressPos := files.address.length }) := if_neg (by omega)
  have hlookup := hc.lookup
  rw [h, List.take_length] at hlookup
  rw [heq]
  exact ⟨rfl, ⟨h, rfl, hlookup, hc.last⟩⟩

include hnodup haligned hlen hc in
lemma reloadAddresses_of_ne (h : c.numPages.toNat ≠ files.address.length) :
    (reloadAddresses files c).1 ∧ Current files.address (reloadAddresses files c).2 := by
  have hle := hc.le
  have hsplit := List.take_append_drop c.numPages.toNat files.address
  have hdrop : ∀ page ∈ files.address.drop c.numPages.toNat, Aligned page :=
    fun page hp => haligned page (List.mem_of_mem_drop hp)
  have hlookup := hc.lookup.foldl_loadAddress (by rw [hsplit]; exact hnodup) hdrop
  have hoffset : UInt64.ofNat (files.address.take c.numPages.toNat).length =
      c.numPages.toUInt64 := by
    rw [List.length_take_of_le hle, ofNat_toNat_eq_toUInt64]
  rw [hoffset] at hlookup
  have hlast : c.lastPage = 0xFFFFFFFFFFFFFFFF ∨ ((files.address.drop c.numPages.toNat).foldl
      loadAddress (c.lookup, c.numPages.toUInt64)).1 c.lastPage = some c.lastAddr :=
    hc.last.imp_right fun hsome => hc.lookup.mono hlookup hsome
  rw [hsplit] at hlookup
  rw [reloadAddresses, if_pos (by omega)]
  refine ⟨rfl, ?_⟩
  constructor
  · rw [Nat.mul_div_cancel _ (by decide), UInt32.toNat_ofNat_of_lt' hlen]
  · exact Nat.max_eq_left hle
  · exact hlookup
  · exact hlast

include hnodup haligned hlen hc in
lemma current_reloadAddresses : Current files.address (reloadAddresses files c).2 := by
  by_cases h : c.numPages.toNat = files.address.length
  · exact (reloadAddresses_of_eq hc h).2
  · exact (reloadAddresses_of_ne hnodup haligned hlen hc h).2

lemma Current.reloadAddresses_eq (h : Current files.address c) :
    reloadAddresses files c = (false, c) := by
  rw [(reloadAddresses_of_eq h.loaded h.eq).1, ← h.pos]

lemma lookup_of_not_reloaded (h : (reloadAddresses files c).1 = false) :
    (reloadAddresses files c).2.lookup = c.lookup := by
  rw [reloadAddresses] at h ⊢
  split at h
  · cases h
  · next hne => rw [if_neg hne]

lemma updatePageCache_of_none (hpage : c.lookup page = none) :
    updatePageCache files c page o =
      let loaded := (reloadAddresses files c).2
      let again := reloadAddresses files loaded
      if loaded.lookup page ≠ none then (.found (loaded.lookup page), files, loaded)
      else if again.1 then (.found (again.2.lookup page), files, again.2)
      else addPage files again.2 page o := by
  have hk : (if (reloadAddresses files c).1 then (reloadAddresses files c).2.lookup page else none) =
      (reloadAddresses files c).2.lookup page := by
    cases hreloaded : (reloadAddresses files c).1 with
    | true => rfl
    | false =>
      rw [lookup_of_not_reloaded hreloaded, hpage]
      rfl
  simp only [updatePageCache, hk]
  by_cases hnone : (reloadAddresses files c).2.lookup page = none
  · simp [hnone]
  · simp [hnone]

include hnodup haligned hlen hc in
lemma updatePageCache_eq (hpage : c.lookup page = none) :
    updatePageCache files c page o =
      if (reloadAddresses files c).2.lookup page ≠ none then
        (.found ((reloadAddresses files c).2.lookup page), files, (reloadAddresses files c).2)
      else addPage files (reloadAddresses files c).2 page o := by
  have hcurrent := current_reloadAddresses hnodup haligned hlen hc
  rw [updatePageCache_of_none hpage]
  dsimp only
  rw [hcurrent.reloadAddresses_eq]
  rfl

end Update

section Append

variable (hentries : files.address.length = files.dump.length)
  (hroom : files.address.length + 1 < 2 ^ 32) (hc : Current files.address c)

include hroom hc in
lemma Current.toNat_succ : (c.numPages + 1).toNat = files.address.length + 1 := by
  rw [UInt32.toNat_add, hc.eq]
  exact Nat.mod_eq_of_lt hroom

include hentries hroom hc in
lemma addPage_of_read {data : PageData} (hdump : o.dumpPage = (true, some data)) :
    addPage files c page o =
      (.found (some (pageOffset files.address.length)),
        ⟨files.address ++ [page], files.dump ++ [data]⟩,
        { c with
          lookup := update c.lookup page (some (pageOffset files.address.length))
          addressPos := files.address.length + 1
          numPages := c.numPages + 1 }) := by
  have hsucc := hc.toNat_succ hroom
  have happend : appendPage files c o = (.appended,
      { files with dump := files.dump ++ [data] }, { c with numPages := c.numPages + 1 }) := by
    simp [appendPage, hdump, hsucc, hc.eq, PageFiles.store_ftruncate hentries.symm]
  have hvalue : (c.numPages + 1 - 1).toUInt64 * cachePageSize =
      pageOffset files.address.length := by
    rw [UInt32.add_sub_cancel, pageOffset, UInt64.ofNat_mul, ← hc.eq]
    rw [ofNat_toNat_eq_toUInt64]
    rfl
  simp only [addPage, happend, hvalue, hc.pos]
  rw [show files.address.length = ({ files with dump := files.dump ++ [data] } :
    PageFiles).address.length from rfl, PageFiles.writeAddress_length]

include hentries hroom hc in
lemma addPage_of_failed {written : Option PageData} (hdump : o.dumpPage = (false, written)) :
    addPage files c page o = (.failed, files, c) := by
  have hsucc := hc.toNat_succ hroom
  have happend : appendPage files c o = (.failed, files, c) := by
    cases written with
    | none => simp [appendPage, hdump, hsucc, hc.eq, PageFiles.ftruncate_ftruncate hentries.symm]
    | some data => simp [appendPage, hdump, hsucc, hc.eq, PageFiles.ftruncate_store hentries.symm]
  simp only [addPage, happend]

include hroom hc in
lemma Current.push (hpage : page ∉ files.address) :
    Current (files.address ++ [page]) { c with
      lookup := update c.lookup page (some (pageOffset files.address.length))
      addressPos := files.address.length + 1
      numPages := c.numPages + 1 } := by
  have hlookup := hc.lookup.push hpage
  constructor
  · rw [List.length_append]
    exact hc.toNat_succ hroom
  · simp
  · exact hlookup
  · exact hc.last.imp_right fun hsome => hc.lookup.mono hlookup hsome

end Append

/-- What an operation leaves in order. -/
structure Kept (files files' : PageFiles) (c' : PageCache) : Prop where
  wellFormed : files'.WellFormed
  extends_files : files.Extends files'
  loaded : Loaded files'.address c'

section Fetch

variable (hwf : files.WellFormed) (hroom : files.address.length + 1 < 2 ^ 32)
  (hc : Loaded files.address c)

include hwf hroom hc in
lemma updatePageCache_spec (haligned : Aligned page) (hpage : c.lookup page = none) :
    ∃ files' c', Kept files files' c' ∧
      (files'.address = files.address ∨ files'.address = files.address ++ [page]) ∧
      (((page ∈ files.address ∨ o.dumpPage.1) ∧ ∃ value, c'.lookup page = some value ∧
          updatePageCache files c page o = (.found (some value), files', c')) ∨
        (¬(page ∈ files.address ∨ o.dumpPage.1) ∧
          updatePageCache files c page o = (.failed, files', c'))) := by
  have hlen : files.address.length < 2 ^ 32 := by omega
  have hcurrent := current_reloadAddresses hwf.nodup hwf.aligned hlen hc
  rw [updatePageCache_eq hwf.nodup hwf.aligned hlen hc hpage]
  by_cases hmem : page ∈ files.address
  · have hsome := hcurrent.lookup.eq_none_iff.not.mpr (not_not_intro hmem)
    obtain ⟨value, hvalue⟩ := Option.ne_none_iff_exists'.mp hsome
    rw [if_pos hsome, hvalue]
    exact ⟨files, _, ⟨hwf, .refl files, hcurrent.loaded⟩, .inl rfl,
      .inl ⟨.inl hmem, value, hvalue, rfl⟩⟩
  · rw [if_neg (not_not_intro (hcurrent.lookup.eq_none_iff.mpr hmem))]
    obtain ⟨data, hdata⟩ | ⟨written, hwritten⟩ := DumpOutcome.run_eq [o.filter, o.parent, o.snapshot]
    · refine ⟨⟨files.address ++ [page], files.dump ++ [data]⟩, _, ?_, .inr rfl,
        .inl ⟨.inr (congrArg Prod.fst hdata), _, update_self ..,
          addPage_of_read hwf.entries hroom hcurrent hdata⟩⟩
      constructor
      · constructor
        · simp [hwf.entries]
        · rw [← List.concat_eq_append]
          exact hwf.nodup.concat hmem
        · intro page' hp
          rw [List.mem_append, List.mem_singleton] at hp
          obtain hp | rfl := hp
          · exact hwf.aligned page' hp
          · exact haligned
      · exact ⟨[(page, data)], rfl, rfl⟩
      · exact (hcurrent.push hroom hmem).loaded
    · have hnot : ¬o.dumpPage.1 = true := by simp [DumpOutcome.dumpPage, hwritten]
      exact ⟨files, _, ⟨hwf, .refl files, hcurrent.loaded⟩, .inl rfl,
        .inr ⟨not_or.mpr ⟨hmem, hnot⟩, addPage_of_failed hwf.entries hroom hcurrent hwritten⟩⟩

lemma Loaded.setLast {address : List UInt64} {value : UInt64} (h : Loaded address c)
    (hvalue : c.lookup page = some value) :
    Loaded address { c with lastPage := page, lastAddr := value } := ⟨h.le, h.lookup, .inr hvalue⟩

include hwf hroom hc in
/-- A call that does not end the process finds a page that the process knows, that another one has
added or that it can read itself, and adds no other one. -/
theorem pageCacheFetch_spec (page : UInt64) (testMode : Bool) (o : DumpOutcome) :
    let aligned := page &&& cachePageMask
    ∃ value files' c', pageCacheFetch files c page testMode o = (value, files', some c') ∧
      Kept files files' c' ∧
      (files'.address = files.address ∨ files'.address = files.address ++ [aligned]) ∧
      (testMode → c'.lookup = c.lookup) ∧ (∀ v, value = some v → c'.lookup aligned = some v) ∧
      (value ≠ none ↔ c.lookup aligned ≠ none ∨
        testMode = false ∧ (aligned ∈ files.address ∨ o.dumpPage.1 = true)) := by
  have hself : Kept files files c := ⟨hwf, .refl files, hc⟩
  simp only [pageCacheFetch]
  have haligned := aligned_and_mask page
  generalize page &&& cachePageMask = page at haligned
  by_cases hlast : c.lastPage = page
  · have hlookup := hc.last.resolve_left fun h => haligned.ne_initial (h.symm.trans hlast)
    rw [hlast] at hlookup
    rw [if_pos hlast]
    exact ⟨_, _, _, rfl, hself, .inl rfl, fun _ => rfl, fun v hv => hlookup.trans hv,
      by simp [hlookup]⟩
  rw [if_neg hlast]
  cases hpage : c.lookup page with
  | some value =>
    exact ⟨_, _, _, rfl, ⟨hwf, .refl files, hc.setLast hpage⟩, .inl rfl, fun _ => rfl,
      fun v hv => hpage.trans hv, by simp⟩
  | none =>
    cases testMode with
    | true => exact ⟨none, _, _, rfl, hself, .inl rfl, fun _ => rfl, by simp, by simp⟩
    | false =>
      obtain ⟨files', c', hkept, hgrows, ⟨hfound, value, hvalue, hupdate⟩ | ⟨hnot, hupdate⟩⟩ :=
        updatePageCache_spec (o := o) hwf hroom hc haligned hpage
      · simp only [hupdate]
        exact ⟨_, _, _, rfl, ⟨hkept.wellFormed, hkept.extends_files, hkept.loaded.setLast hvalue⟩,
          hgrows, by simp, fun v hv => hvalue.trans hv, by simpa using hfound⟩
      · simp only [hupdate]
        exact ⟨none, _, _, rfl, hkept, hgrows, by simp, by simp, by simpa using hnot⟩

end Fetch

end PageCache

/-- The processes that share the files. -/
structure CacheSystem where
  files : PageFiles
  caches : ℕ → Option PageCache

inductive CacheStep where
  | start (i : ℕ)
  | fetch (i : ℕ) (page : UInt64) (testMode : Bool) (o : DumpOutcome)

namespace CacheSystem

def empty : CacheSystem := ⟨⟨[], []⟩, fun _ => none⟩

def step (s : CacheSystem) : CacheStep → CacheSystem
  | .start i => { s with caches := update s.caches i (some pageCacheNew) }
  | .fetch i page testMode o =>
    match s.caches i with
    | none => s
    | some c =>
      let r := c.pageCacheFetch s.files page testMode o
      ⟨r.2.1, update s.caches i r.2.2⟩

/-- The states of all runs from empty files in which every step is taken where `ok` allows it. -/
inductive Reachable (ok : CacheSystem → Prop) : CacheSystem → Prop where
  | empty : Reachable ok empty
  | step {s : CacheSystem} (h : Reachable ok s) (hok : ok s) (a : CacheStep) :
      Reachable ok (s.step a)

/-- One entry in the address file for each page of the dump file, no address twice, and what a
process has looked up is where the address file says. -/
structure Consistent (s : CacheSystem) : Prop where
  entries : s.files.address.length = s.files.dump.length
  nodup : s.files.address.Nodup
  lookup : ∀ i c page offset, s.caches i = some c → c.lookup page = some offset →
    offset.toNat < c.numPages.toNat * 0x1000 ∧ offset.toNat % 0x1000 = 0 ∧
      s.files.address[offset.toNat / 0x1000]? = some page

/-- Every cache agrees with the files. -/
structure Coherent (s : CacheSystem) : Prop where
  wellFormed : s.files.WellFormed
  loaded : ∀ i c, s.caches i = some c → PageCache.Loaded s.files.address c

def Room (s : CacheSystem) : Prop := s.files.address.length + 1 < 2 ^ 32

variable {s : CacheSystem}

lemma step_fetch {i : ℕ} {c : PageCache} {page : UInt64} {testMode : Bool} {o : DumpOutcome}
    {value : Option UInt64} {files : PageFiles} {c' : Option PageCache} (hi : s.caches i = some c)
    (h : c.pageCacheFetch s.files page testMode o = (value, files, c')) :
    s.step (.fetch i page testMode o) = ⟨files, update s.caches i c'⟩ := by
  simp only [step, hi, h]

lemma coherent_empty : Coherent empty := by
  constructor
  · exact ⟨rfl, List.nodup_nil, by simp [empty]⟩
  · intro i c hc
    cases hc

lemma Coherent.start (h : Coherent s) (i : ℕ) : Coherent (s.step (.start i)) := by
  refine ⟨h.wellFormed, ?_⟩
  intro j c hc
  by_cases hj : j = i
  · subst hj
    simp only [step, update_self, Option.some.injEq] at hc
    subst hc
    exact PageCache.loaded_new _
  · simp only [step, update_of_ne hj] at hc
    exact h.loaded j c hc

lemma Coherent.step (h : Coherent s) (hroom : s.Room) (a : CacheStep) :
    Coherent (s.step a) ∧ s.files.Extends (s.step a).files := by
  cases a with
  | start i => exact ⟨h.start i, .refl _⟩
  | fetch i page testMode o =>
    cases hi : s.caches i with
    | none =>
      have heq : s.step (.fetch i page testMode o) = s := by simp [CacheSystem.step, hi]
      rw [heq]
      exact ⟨h, .refl _⟩
    | some c =>
      obtain ⟨value, files', c', hfetch, hkept, -⟩ :=
        PageCache.pageCacheFetch_spec h.wellFormed hroom (h.loaded i c hi) page testMode o
      rw [step_fetch hi hfetch]
      refine ⟨⟨hkept.wellFormed, ?_⟩, hkept.extends_files⟩
      intro j d hd
      by_cases hj : j = i
      · subst hj
        simp only [update_self, Option.some.injEq] at hd
        subst hd
        exact hkept.loaded
      · simp only [update_of_ne hj] at hd
        obtain ⟨new, haddress, -⟩ := hkept.extends_files
        rw [haddress]
        exact (h.loaded j d hd).append _

lemma Coherent.consistent (h : Coherent s) : Consistent s := by
  refine ⟨h.wellFormed.entries, h.wellFormed.nodup, ?_⟩
  intro i c page offset hc hoffset
  have hloaded := h.loaded i c hc
  obtain ⟨k, hk, rfl⟩ := hloaded.lookup.exists_entry hoffset
  have hlt : k < c.numPages.toNat := by
    have hlength := (List.getElem?_eq_some_iff.mp hk).1
    rw [List.length_take] at hlength
    omega
  rw [List.getElem?_take_of_lt hlt] at hk
  rw [PageCache.toNat_pageOffset (Nat.lt_trans hlt c.numPages.toNat_lt)]
  refine ⟨by omega, Nat.mul_mod_left _ _, ?_⟩
  rw [Nat.mul_div_cancel _ (by decide), hk]

lemma Reachable.coherent (h : Reachable Room s) : Coherent s := by
  induction h with
  | empty => exact coherent_empty
  | step _ hroom a ih => exact (ih.step hroom a).1

/-- In every run that takes its steps while there is room the page cache is consistent. -/
theorem consistent_of_room (h : Reachable Room s) : Consistent s := h.coherent.consistent

def alwaysRead (data : PageData) : DumpOutcome := ⟨.read data, .read data, .read data⟩

def twoProcesses : CacheSystem :=
  (((empty.step (.start 0)).step (.start 1)).step
    (.fetch 0 0x1234 false (alwaysRead fun _ => 7))).step
      (.fetch 1 0x1000 false ⟨.unmapped, .unmapped, .unmapped⟩)

theorem consistent_of_room_twoProcesses :
    Reachable Room twoProcesses ∧ twoProcesses.files.address = [0x1000] ∧
      Consistent twoProcesses := by
  have hstarted : Reachable Room ((empty.step (.start 0)).step (.start 1)) :=
    (Reachable.empty.step (by rw [Room]; decide) _).step (by rw [Room]; decide) _
  have hreach : Reachable Room twoProcesses :=
    (hstarted.step (by rw [Room]; decide) _).step (by rw [Room]; decide +kernel) _
  exact ⟨hreach, by decide +kernel, consistent_of_room hreach⟩

section Limit

open PageCache

lemma aligned_pageOffset {i : ℕ} (hi : i < 2 ^ 32) : Aligned (pageOffset i) := by
  have hmask : cachePageMask.toNat = (2 ^ 52 - 1) <<< 12 := rfl
  have hoffset : i * 0x1000 = i <<< 12 := by
    rw [Nat.shiftLeft_eq]
  rw [Aligned, ← UInt64.toNat_inj, UInt64.toNat_and, toNat_pageOffset hi, hmask, hoffset,
    ← Nat.shiftLeft_and_distrib, Nat.and_two_pow_sub_one_eq_mod, Nat.mod_eq_of_lt (by omega)]

variable {files : PageFiles} {c : PageCache} {page : UInt64} {o : DumpOutcome}

lemma pageOffset_notMem_range {n : ℕ} (hn : n < 2 ^ 32) :
    pageOffset n ∉ (List.range n).map pageOffset := by
  rw [List.mem_map]
  rintro ⟨i, hi, heq⟩
  rw [List.mem_range] at hi
  rw [← UInt64.toNat_inj, toNat_pageOffset (by omega), toNat_pageOffset hn] at heq
  omega

lemma Coherent.fetch_next {n : ℕ} (h : Coherent s) (hn : n < 2 ^ 32)
    (haddress : s.files.address = (List.range n).map pageOffset) (hc : s.caches 0 = some c) :
    Current s.files.address (reloadAddresses s.files c).2 ∧
    pageCacheFetch s.files c (pageOffset n) false o =
      match addPage s.files (reloadAddresses s.files c).2 (pageOffset n) o with
      | (.found (some value), files, self) =>
        (some value, files, some { self with lastPage := pageOffset n, lastAddr := value })
      | (.found none, files, _) => (none, files, none)
      | (.failed, files, self) => (none, files, some self)
      | (.killed, files, _) => (none, files, none) := by
  have hwf := h.wellFormed
  have hloaded := h.loaded 0 c hc
  have hpage := aligned_pageOffset hn
  have hlen : s.files.address.length < 2 ^ 32 := by simpa [haddress] using hn
  have hfresh : pageOffset n ∉ s.files.address := haddress ▸ pageOffset_notMem_range hn
  have hnone : c.lookup (pageOffset n) = none := by
    apply hloaded.lookup.eq_none_iff.mpr
    intro hmem
    exact hfresh (List.mem_of_mem_take hmem)
  have hlast : c.lastPage ≠ pageOffset n := by
    intro heq
    have hsome := hloaded.last.resolve_left fun h => hpage.ne_initial (h.symm.trans heq)
    rw [heq, hnone] at hsome
    cases hsome
  have hcurrent := current_reloadAddresses hwf.nodup hwf.aligned hlen hloaded
  have hreloaded : ¬(reloadAddresses s.files c).2.lookup (pageOffset n) ≠ none :=
    not_not.mpr (hcurrent.lookup.eq_none_iff.mpr hfresh)
  refine ⟨hcurrent, ?_⟩
  simp only [pageCacheFetch, show pageOffset n &&& cachePageMask = pageOffset n from hpage,
    if_neg hlast, hnone, updatePageCache_eq hwf.nodup hwf.aligned hlen hloaded hnone,
    if_neg hreloaded]
  rfl

lemma addPage_at_limit (hlen : files.address.length + 1 = 2 ^ 32) (hc : Current files.address c)
    {data : PageData} (hdump : o.dumpPage = (true, some data)) :
    addPage files c page o = (.killed, ⟨files.address, []⟩, c) := by
  have hwrap : (c.numPages + 1).toNat = 0 := by
    rw [UInt32.toNat_add, hc.eq]
    exact congrArg (· % 2 ^ 32) hlen
  have happend : appendPage files c o = (.killed, ⟨files.address, []⟩, c) := by
    simp [appendPage, hdump, hwrap, PageFiles.ftruncate]
  simp only [addPage, happend]

lemma pageCacheFetch_new (hnodup : files.address.Nodup)
    (haligned : ∀ page ∈ files.address, Aligned page) (hlen : files.address.length < 2 ^ 32)
    {i : ℕ} (hi : files.address[i]? = some page) :
    ∃ c', pageCacheFetch files pageCacheNew page false o = (some (pageOffset i), files, some c') := by
  have hpage : Aligned page := haligned page (List.mem_of_getElem? hi)
  have hlast : pageCacheNew.lastPage ≠ page := hpage.ne_initial
  have hloaded := loaded_new files.address
  have hsome := (current_reloadAddresses hnodup haligned hlen hloaded).lookup.eq_some hi
  have hne : (reloadAddresses files pageCacheNew).2.lookup page ≠ none := by
    rw [hsome]
    exact Option.some_ne_none _
  have hnone : pageCacheNew.lookup page = none := rfl
  simp only [pageCacheFetch, show page &&& cachePageMask = page from hpage, if_neg hlast, hnone,
    updatePageCache_eq hnodup haligned hlen hloaded hnone, if_pos hne]
  rw [hsome]
  exact ⟨_, rfl⟩

lemma exists_filled (n : ℕ) (hn : n < 2 ^ 32) :
    ∃ s, Reachable (fun _ => True) s ∧ Coherent s ∧
      s.files.address = (List.range n).map pageOffset ∧ s.caches 0 ≠ none ∧
      s.caches 1 = some pageCacheNew := by
  induction n with
  | zero =>
    exact ⟨_, (Reachable.empty.step trivial (.start 0)).step trivial (.start 1),
      (coherent_empty.start 0).start 1, rfl, nofun, rfl⟩
  | succ n ih =>
    obtain ⟨s, hreach, hcoherent, haddress, hsome, hone⟩ := ih (by omega)
    obtain ⟨c, hzero⟩ := Option.ne_none_iff_exists'.mp hsome
    have hlen : s.files.address.length = n := by simp [haddress]
    have hroom : s.Room := by
      rw [Room, hlen]
      exact hn
    obtain ⟨hcurrent, hfetch⟩ := hcoherent.fetch_next (o := alwaysRead fun _ => 0) (by omega)
      haddress hzero
    rw [addPage_of_read hcoherent.wellFormed.entries hroom hcurrent rfl] at hfetch
    refine ⟨s.step (.fetch 0 (pageOffset n) false (alwaysRead fun _ => 0)),
      hreach.step trivial _, (hcoherent.step hroom _).1, ?_, ?_, ?_⟩
    · rw [step_fetch hzero hfetch, List.range_succ, List.map_append]
      exact congrArg (· ++ [pageOffset n]) haddress
    · simp [step_fetch hzero hfetch]
    · simp [step_fetch hzero hfetch, hone]

/-- Once there are `2 ^ 32 - 1` pages, the process that adds the next one empties the dump file and
is killed, and a call of another process that succeeds afterwards leaves it so. -/
theorem not_consistent_at_limit :
    ∃ s c value, Reachable (fun _ => True) s ∧ s.caches 1 = some c ∧
      (c.pageCacheFetch s.files 0 false (alwaysRead fun _ => 0)).1 = some value ∧
      ¬Consistent (s.step (.fetch 1 0 false (alwaysRead fun _ => 0))) := by
  obtain ⟨n, hn⟩ : ∃ n, n + 1 = 2 ^ 32 := ⟨2 ^ 32 - 1, rfl⟩
  obtain ⟨s, hreach, hcoherent, haddress, hsome, hone⟩ := exists_filled n (by omega)
  obtain ⟨c, hzero⟩ := Option.ne_none_iff_exists'.mp hsome
  have hlen : s.files.address.length = n := by simp [haddress]
  obtain ⟨hcurrent, hkilled⟩ := hcoherent.fetch_next (o := alwaysRead fun _ => 0) (by omega)
    haddress hzero
  rw [addPage_at_limit (by omega) hcurrent rfl] at hkilled
  have hfirst : s.files.address[0]? = some 0 := by
    have hpos : 0 < n := by omega
    simp [haddress, hpos, pageOffset]
  let files' : PageFiles := ⟨s.files.address, []⟩
  obtain ⟨c', hfetch⟩ : ∃ c', pageCacheFetch files' pageCacheNew 0 false (alwaysRead fun _ => 0) =
      (some (pageOffset 0), files', some c') := by
    apply pageCacheFetch_new
    · exact hcoherent.wellFormed.nodup
    · exact hcoherent.wellFormed.aligned
    · show s.files.address.length < 2 ^ 32
      omega
    · exact hfirst
  have hreach' := hreach.step trivial (.fetch 0 (pageOffset n) false (alwaysRead fun _ => 0))
  rw [step_fetch hzero hkilled] at hreach'
  let s' : CacheSystem := ⟨⟨s.files.address, []⟩, update s.caches 0 none⟩
  have hone' : s'.caches 1 = some pageCacheNew := by simp [s', hone]
  refine ⟨s', pageCacheNew, pageOffset 0, hreach', hone', congrArg Prod.fst hfetch, ?_⟩
  rw [step_fetch hone' hfetch]
  intro hconsistent
  have hentries : s.files.address.length = 0 := hconsistent.entries
  omega

end Limit

end CacheSystem

end Nyx.Qemu
