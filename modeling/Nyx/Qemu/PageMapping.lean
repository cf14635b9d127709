import Nyx.Lib.Machine
import Nyx.Qemu.PageCache

/-!
# The mapping of the page cache

A process maps the dump file and hands out pointers into the mapping. Whenever the file grows it is
mapped again elsewhere. The pointer to the last page is kept.
-/

namespace Nyx.Qemu

/-- `page_cache_t` with the address of the mapping. Here `last_addr` is the pointer itself. -/
structure MappedCache where
  cache : PageCache
  pageData : UInt64

/-- Where the kernel puts the mapping in one call: when the addresses are loaded, and again, when
the file is extended by a page, and when it is cut back. -/
structure Mappings where
  reload : UInt64
  reloadAgain : UInt64
  append : UInt64
  restore : UInt64

def Mappings.toList (m : Mappings) : List UInt64 := [m.reload, m.reloadAgain, m.append, m.restore]

namespace MappedCache

def new : MappedCache := ⟨pageCacheNew, 0⟩

def reloadAddresses (files : PageFiles) (self : MappedCache) (mmap : UInt64) : Bool × MappedCache :=
  let (reloaded, cache) := PageCache.reloadAddresses files self.cache
  (reloaded, ⟨cache, if reloaded then mmap else self.pageData⟩)

def appendPage (files : PageFiles) (self : MappedCache) (o : DumpOutcome) (m : Mappings) :
    AppendResult × PageFiles × MappedCache :=
  match PageCache.appendPage files self.cache o with
  | (.failed, files, cache) => (.failed, files, ⟨cache, m.restore⟩)
  | (result, files, cache) => (result, files, ⟨cache, m.append⟩)

def addPage (files : PageFiles) (self : MappedCache) (page : UInt64) (o : DumpOutcome)
    (m : Mappings) : UpdateResult × PageFiles × MappedCache :=
  match appendPage files self o m with
  | (.appended, files, self) =>
    let value := (self.cache.numPages - 1).toUInt64 * cachePageSize
    (.found (some value), files.writeAddress self.cache.addressPos page,
      { self with cache := { self.cache with
          lookup := Function.update self.cache.lookup page (some value)
          addressPos := self.cache.addressPos + 1 } })
  | (.failed, files, self) => (.failed, files, self)
  | (.killed, files, self) => (.killed, files, self)

def updatePageCache (files : PageFiles) (self : MappedCache) (page : UInt64) (o : DumpOutcome)
    (m : Mappings) : UpdateResult × PageFiles × MappedCache :=
  let (reloaded, self) := reloadAddresses files self m.reload
  let k := if reloaded then self.cache.lookup page else none
  if k ≠ none then (.found k, files, self)
  else if self.cache.lookup page = none ∧ (reloadAddresses files self m.reloadAgain).1 then
    let self := (reloadAddresses files self m.reloadAgain).2
    (.found (self.cache.lookup page), files, self)
  else
    addPage files (if self.cache.lookup page = none then
      (reloadAddresses files self m.reloadAgain).2 else self) page o m

def remember (self : MappedCache) (page value : UInt64) : MappedCache :=
  { self with cache := { self.cache with
      lastPage := page
      lastAddr := if value = unmappedPage then unmappedPage else self.pageData + value } }

def pageCacheFetch (files : PageFiles) (self : MappedCache) (page : UInt64) (testMode : Bool)
    (o : DumpOutcome) (m : Mappings) : Option UInt64 × PageFiles × Option MappedCache :=
  let page := page &&& cachePageMask
  if self.cache.lastPage = page then (some self.cache.lastAddr, files, some self)
  else
    match self.cache.lookup page with
    | some value =>
      (some (self.remember page value).cache.lastAddr, files, some (self.remember page value))
    | none =>
      if testMode then (none, files, some self)
      else
        match updatePageCache files self page o m with
        | (.found (some value), files, self) =>
          (some (self.remember page value).cache.lastAddr, files, some (self.remember page value))
        -- reads the value of an entry that does not exist
        | (.found none, files, _) => (none, files, none)
        | (.failed, files, self) => (none, files, some self)
        | (.killed, files, _) => (none, files, none)

def lookupAddr (self : MappedCache) (page : UInt64) : Option UInt64 :=
  (self.cache.lookup page).map (self.pageData + ·)

/-- The pointer to the last page is the one that the table gives. -/
def LastAddrValid (c : MappedCache) : Prop :=
  c.cache.lastPage ≠ 0xFFFFFFFFFFFFFFFF → c.lookupAddr c.cache.lastPage = some c.cache.lastAddr

end MappedCache

/-- A call of `page_cache_fetch` and what it finds: the files as the other processes have left them,
the guest and the kernel. -/
structure FetchCall where
  files : PageFiles
  page : UInt64
  testMode : Bool
  outcome : DumpOutcome
  mappings : Mappings

namespace MappedCache

def fetches : Machine FetchCall (Option UInt64) MappedCache := fun c call =>
  match c.pageCacheFetch call.files call.page call.testMode call.outcome call.mappings with
  | (addr, _, c') => c'.map fun c' => (addr, c')

/-- The page is neither in the table nor in the file, and the guest does not give it. -/
def Missing (files : PageFiles) (c : PageCache) (page : UInt64) (o : DumpOutcome) : Prop :=
  (PageCache.reloadAddresses files c).2.lookup page = none ∧
    (PageCache.reloadAddresses files (PageCache.reloadAddresses files c).2).1 = false ∧
    o.dumpPage.1 = false

/-- A call that has to read the page from the guest and cannot. -/
def DumpFails (c : MappedCache) (call : FetchCall) : Prop :=
  let page := call.page &&& cachePageMask
  c.cache.lastPage ≠ page ∧ c.cache.lookup page = none ∧ call.testMode = false ∧
    Missing call.files c.cache page call.outcome

/-- If a page cannot be read while the pointer to another one is kept, the mapping comes back to
the address that it had. -/
def MappingKept (c : MappedCache) (call : FetchCall) : Prop :=
  c.cache.lastPage ≠ 0xFFFFFFFFFFFFFFFF → c.DumpFails call → call.mappings.restore = c.pageData

end MappedCache

namespace PageCache

variable {files : PageFiles} {c c' : PageCache} {page : UInt64} {o : DumpOutcome}

/-- Offsets are multiples of the page size, so none of them is `UNMAPPED_PAGE`. -/
def Offsets (c : PageCache) : Prop := ∀ page value, c.lookup page = some value → value &&& 0xFFF = 0

/-- The cache has kept its entries. -/
structure Grows (c c' : PageCache) : Prop where
  lastPage : c'.lastPage = c.lastPage
  lastAddr : c'.lastAddr = c.lastAddr
  lookup : ∀ page value, c.lookup page = some value → c'.lookup page = some value
  offsets : c.Offsets → c'.Offsets

lemma Grows.refl (c : PageCache) : Grows c c := ⟨rfl, rfl, fun _ _ h => h, fun h => h⟩

lemma Grows.trans {c'' : PageCache} (h : Grows c c') (h' : Grows c' c'') : Grows c c'' where
  lastPage := h'.lastPage.trans h.lastPage
  lastAddr := h'.lastAddr.trans h.lastAddr
  lookup page value hvalue := h'.lookup page value (h.lookup page value hvalue)
  offsets hoffsets := h'.offsets (h.offsets hoffsets)

lemma mul_cachePageSize_and_low (n : UInt64) : n * cachePageSize &&& 0xFFF = 0 := by
  rw [← UInt64.toNat_inj, UInt64.toNat_and, UInt64.toNat_mul]
  show n.toNat * 0x1000 % 2 ^ 64 &&& 2 ^ 12 - 1 = 0
  rw [Nat.and_two_pow_sub_one_eq_mod]
  omega

lemma Grows.update {value : UInt64} (hpage : c.lookup page = none) (hlast : c'.lastPage = c.lastPage)
    (haddr : c'.lastAddr = c.lastAddr)
    (hlookup : c'.lookup = Function.update c.lookup page (some (value * cachePageSize))) :
    Grows c c' := by
  refine ⟨hlast, haddr, fun page' value' h => ?_, fun h page' value' h' => ?_⟩
  · have hne : page' ≠ page := by
      rintro rfl
      rw [hpage] at h
      cases h
    rw [hlookup, Function.update_of_ne hne, h]
  · rw [hlookup] at h'
    by_cases heq : page' = page
    · rw [heq, Function.update_self, Option.some.injEq] at h'
      rw [← h']
      exact mul_cachePageSize_and_low value
    · rw [Function.update_of_ne heq] at h'
      exact h page' value' h'

lemma foldl_loadAddress_grows (values : List UInt64) (offset : UInt64) :
    Grows c { c with lookup := (values.foldl loadAddress (c.lookup, offset)).1 } := by
  induction values generalizing c offset with
  | nil => exact Grows.refl c
  | cons value values ih =>
    have hstep : Grows c { c with lookup := (loadAddress (c.lookup, offset) value).1 } := by
      simp only [loadAddress]
      split
      · next hnone =>
        split
        · exact Grows.refl c
        · exact Grows.update hnone rfl rfl rfl
      · exact Grows.refl c
    exact hstep.trans (ih (c := { c with lookup := (loadAddress (c.lookup, offset) value).1 }) _)

lemma reloadAddresses_grows : Grows c (reloadAddresses files c).2 := by
  have hloaded := foldl_loadAddress_grows (c := c) (files.address.drop c.numPages.toNat)
    c.numPages.toUInt64
  rw [reloadAddresses]
  split
  · exact ⟨rfl, rfl, hloaded.lookup, hloaded.offsets⟩
  · exact ⟨rfl, rfl, fun _ _ h => h, fun h => h⟩

lemma addPage_cases (files : PageFiles) (o : DumpOutcome) (hpage : c.lookup page = none) :
    (∃ files' c' value, addPage files c page o = (.found (some value), files', c') ∧
        o.dumpPage.1 ∧ Grows c c' ∧ c'.lookup page = some value) ∨
      (∃ files', addPage files c page o = (.failed, files', c) ∧ o.dumpPage.1 = false) ∨
      ∃ files', addPage files c page o = (.killed, files', c) := by
  simp only [addPage, appendPage]
  obtain ⟨success, written⟩ := o.dumpPage
  by_cases h : written.isSome = true ∧ ¬c.numPages.toNat < (c.numPages + 1).toNat
  · simp only [if_pos h]
    exact .inr (.inr ⟨_, rfl⟩)
  · simp only [if_neg h]
    cases success with
    | true => exact .inl ⟨_, _, _, rfl, rfl, Grows.update hpage rfl rfl rfl, Function.update_self ..⟩
    | false => exact .inr (.inl ⟨_, rfl, rfl⟩)

lemma updatePageCache_cases (files : PageFiles) (o : DumpOutcome) (hpage : c.lookup page = none) :
    (∃ files' c' value, updatePageCache files c page o = (.found (some value), files', c') ∧
        Grows c c' ∧ c'.lookup page = some value ∧ ¬MappedCache.Missing files c page o) ∨
      (∃ files' c', updatePageCache files c page o = (.failed, files', c') ∧ Grows c c' ∧
        MappedCache.Missing files c page o) ∨
      (∃ files' c', updatePageCache files c page o = (.killed, files', c')) ∨
      ∃ files' c', updatePageCache files c page o = (.found none, files', c') := by
  rw [updatePageCache_of_none hpage]
  have hgrows : Grows c (reloadAddresses files c).2 := reloadAddresses_grows
  have hagain : Grows c (reloadAddresses files (reloadAddresses files c).2).2 :=
    hgrows.trans reloadAddresses_grows
  simp only [MappedCache.Missing]
  generalize (reloadAddresses files c).2 = loaded at hgrows hagain ⊢
  cases hvalue : loaded.lookup page with
  | some value =>
    left
    exact ⟨files, _, value, rfl, hgrows, hvalue, fun h => by cases h.1⟩
  | none =>
    cases hsecond : (reloadAddresses files loaded).1 with
    | true =>
      cases hfound : (reloadAddresses files loaded).2.lookup page with
      | some value => exact .inl ⟨files, _, value, rfl, hagain, hfound, fun h => by cases h.2.1⟩
      | none => exact .inr (.inr (.inr ⟨_, _, rfl⟩))
    | false =>
      have hlookup : (reloadAddresses files loaded).2.lookup page = none :=
        (congrFun (lookup_of_not_reloaded hsecond) page).trans hvalue
      obtain ⟨files', c', value, hadd, hdump, hadded, hentry⟩ | ⟨files', hadd, hdump⟩ |
        ⟨files', hkilled⟩ := addPage_cases files o hlookup
      · exact .inl ⟨files', c', value, hadd, hagain.trans hadded, hentry, fun h =>
          Bool.false_ne_true (h.2.2.symm.trans hdump)⟩
      · exact .inr (.inl ⟨files', _, hadd, hagain, rfl, rfl, hdump⟩)
      · exact .inr (.inr (.inl ⟨files', _, hkilled⟩))

def setLast (c : PageCache) (lastPage lastAddr : UInt64) : PageCache :=
  { c with lastPage := lastPage, lastAddr := lastAddr }

section SetLast

variable (lastPage lastAddr : UInt64)

lemma reloadAddresses_setLast : reloadAddresses files (c.setLast lastPage lastAddr) =
    ((reloadAddresses files c).1, (reloadAddresses files c).2.setLast lastPage lastAddr) := by
  by_cases h : files.address.length * 8 = c.numPages.toNat * 8
  · simp [reloadAddresses, setLast, h]
  · simp [reloadAddresses, setLast, h]

lemma addPage_setLast : addPage files (c.setLast lastPage lastAddr) page o =
    ((addPage files c page o).1, (addPage files c page o).2.1,
      (addPage files c page o).2.2.setLast lastPage lastAddr) := by
  simp only [addPage, appendPage, setLast]
  obtain ⟨success, written⟩ := o.dumpPage
  by_cases h : written.isSome = true ∧ ¬c.numPages.toNat < (c.numPages + 1).toNat
  · simp only [if_pos h]
  · simp only [if_neg h]
    cases success <;> rfl

lemma updatePageCache_setLast (hpage : c.lookup page = none) :
    updatePageCache files (c.setLast lastPage lastAddr) page o =
    ((updatePageCache files c page o).1, (updatePageCache files c page o).2.1,
      (updatePageCache files c page o).2.2.setLast lastPage lastAddr) := by
  rw [updatePageCache_of_none hpage,
    updatePageCache_of_none (c := c.setLast lastPage lastAddr) hpage]
  have hlookup : ∀ d : PageCache, (d.setLast lastPage lastAddr).lookup = d.lookup := fun _ => rfl
  simp only [reloadAddresses_setLast, addPage_setLast, hlookup]
  by_cases hnone : (reloadAddresses files c).2.lookup page = none
  · cases hagain : (reloadAddresses files (reloadAddresses files c).2).1 <;> simp [hnone]
  · simp [hnone]

end SetLast

end PageCache

namespace MappedCache

open PageCache (Grows Offsets)

variable {files : PageFiles} {c c' : MappedCache} {page value : UInt64} {o : DumpOutcome}
  {m : Mappings} {call : FetchCall}

/-- The state with the pointer to the last page taken relative to the mapping. -/
def relative (c : MappedCache) : PageCache :=
  c.cache.setLast c.cache.lastPage
    (if c.cache.lastPage = 0xFFFFFFFFFFFFFFFF then c.cache.lastAddr
      else c.cache.lastAddr - c.pageData)

/-- What a call can do, beside what it does in the model without a mapping. -/
inductive Fetched (c : MappedCache) (call : FetchCall) :
    Option UInt64 × PageFiles × Option MappedCache →
      Option UInt64 × PageFiles × Option PageCache → Prop
  | last (h : c.cache.lastPage = call.page &&& cachePageMask) :
    Fetched c call (some c.cache.lastAddr, call.files, some c)
      (some c.relative.lastAddr, call.files, some c.relative)
  | skipped (h : call.testMode = true) :
    Fetched c call (none, call.files, some c) (none, call.files, some c.relative)
  | found {d : MappedCache} {page value : UInt64} (files : PageFiles)
      (hpage : page = call.page &&& cachePageMask) (hgrows : Grows c.cache d.cache)
      (hvalue : d.cache.lookup page = some value)
      (hdata : d.pageData ∈ c.pageData :: call.mappings.toList) (hfails : ¬c.DumpFails call) :
    Fetched c call (some (d.remember page value).cache.lastAddr, files, some (d.remember page value))
      (some value, files, some (d.cache.setLast page value))
  | failed {d : MappedCache} (files : PageFiles) (hgrows : Grows c.cache d.cache)
      (hdata : d.pageData = call.mappings.restore) (hfails : c.DumpFails call) :
    Fetched c call (none, files, some d)
      (none, files, some (d.cache.setLast c.relative.lastPage c.relative.lastAddr))
  | gone (files : PageFiles) : Fetched c call (none, files, none) (none, files, none)

/-- The critical section does what it does without a mapping; where the file is mapped afterwards is
one of the addresses of the call. -/
inductive Mirrors (c : MappedCache) (m : Mappings) :
    UpdateResult × PageFiles × MappedCache → UpdateResult × PageFiles × PageCache → Prop
  | intro {result : UpdateResult} {files : PageFiles} {cache : PageCache} {mapping : UInt64}
      (hdata : mapping ∈ c.pageData :: m.toList) (hfailed : result = .failed → mapping = m.restore) :
    Mirrors c m (result, files, ⟨cache, mapping⟩) (result, files, cache)

lemma Mirrors.ite {p : Prop} [Decidable p] {a b : UpdateResult × PageFiles × MappedCache}
    {a' b' : UpdateResult × PageFiles × PageCache} (ha : Mirrors c m a a') (hb : Mirrors c m b b') :
    Mirrors c m (if p then a else b) (if p then a' else b') := by
  split
  · exact ha
  · exact hb

lemma mirrors_addPage {d : MappedCache} {cache : PageCache} (h : d.cache = cache) :
    Mirrors c m (addPage files d page o m) (PageCache.addPage files cache page o) := by
  subst h
  simp only [addPage, appendPage, PageCache.addPage]
  obtain ⟨result, files', c'⟩ := PageCache.appendPage files d.cache o
  cases result with
  | appended => exact .intro (by simp [Mappings.toList]) (fun h => by cases h)
  | failed => exact .intro (by simp [Mappings.toList]) fun _ => rfl
  | killed => exact .intro (by simp [Mappings.toList]) (fun h => by cases h)

lemma pageData_reloadAddresses {l : List UInt64} {mmap : UInt64} (hc : c.pageData ∈ l)
    (hmmap : mmap ∈ l) : (reloadAddresses files c mmap).2.pageData ∈ l := by
  show (if _ then mmap else c.pageData) ∈ l
  split
  · exact hmmap
  · exact hc

lemma mirrors_updatePageCache : Mirrors c m (updatePageCache files c page o m)
    (PageCache.updatePageCache files c.cache page o) := by
  have hloaded : (reloadAddresses files c m.reload).2.pageData ∈ c.pageData :: m.toList :=
    pageData_reloadAddresses (List.mem_cons_self ..) (by simp [Mappings.toList])
  have hagain : (reloadAddresses files (reloadAddresses files c m.reload).2
      m.reloadAgain).2.pageData ∈ c.pageData :: m.toList :=
    pageData_reloadAddresses hloaded (by simp [Mappings.toList])
  exact .ite (.intro hloaded (fun h => by cases h)) (.ite (.intro hagain nofun)
    (mirrors_addPage (apply_ite cache _ _ _)))

lemma fetched (c : MappedCache) (call : FetchCall) : Fetched c call
    (c.pageCacheFetch call.files call.page call.testMode call.outcome call.mappings)
    (PageCache.pageCacheFetch call.files c.relative call.page call.testMode call.outcome) := by
  have hlastPage : c.relative.lastPage = c.cache.lastPage := rfl
  have hlookup : c.relative.lookup = c.cache.lookup := rfl
  simp only [pageCacheFetch, PageCache.pageCacheFetch, hlastPage, hlookup]
  by_cases hlast : c.cache.lastPage = call.page &&& cachePageMask
  · rw [if_pos hlast, if_pos hlast]
    exact .last hlast
  rw [if_neg hlast, if_neg hlast]
  cases hpage : c.cache.lookup (call.page &&& cachePageMask) with
  | some value =>
    refine .found _ rfl (Grows.refl _) hpage (List.mem_cons_self ..) fun hfails => ?_
    cases hfails.2.1.symm.trans hpage
  | none =>
    cases htest : call.testMode with
    | true => exact .skipped htest
    | false =>
      have hmirrors : Mirrors c call.mappings (updatePageCache call.files c
          (call.page &&& cachePageMask) call.outcome call.mappings) _ := mirrors_updatePageCache
      rw [relative, PageCache.updatePageCache_setLast _ _ hpage]
      generalize updatePageCache call.files c _ call.outcome call.mappings = r at hmirrors ⊢
      obtain ⟨files', d, value, heq, hgrows, hvalue, hmissing⟩ |
        ⟨files', d, heq, hgrows, hmissing⟩ | ⟨files', d, heq⟩ | ⟨files', d, heq⟩ :=
        PageCache.updatePageCache_cases call.files call.outcome hpage
      · rw [heq] at hmirrors ⊢
        cases hmirrors with
        | intro hdata => exact .found (d := ⟨d, _⟩) _ rfl hgrows hvalue hdata fun h => hmissing h.2.2.2
      · rw [heq] at hmirrors ⊢
        cases hmirrors with
        | intro _ hrestore =>
          exact .failed (d := ⟨d, _⟩) _ hgrows (hrestore rfl) ⟨hlast, hpage, htest, hmissing⟩
      · rw [heq] at hmirrors ⊢
        cases hmirrors
        exact .gone _
      · rw [heq] at hmirrors ⊢
        cases hmirrors
        exact .gone _

lemma fetched_of_fetches {addr : Option UInt64} (h : fetches c call = some (addr, c')) :
    ∃ files' r, Fetched c call (addr, files', some c') r := by
  have hfetched := fetched c call
  rw [fetches] at h
  generalize c.pageCacheFetch call.files call.page call.testMode call.outcome call.mappings = r
    at h hfetched
  obtain ⟨addr', files', c''⟩ := r
  cases c'' with
  | none => cases h
  | some c'' =>
    cases h
    exact ⟨_, _, hfetched⟩

lemma offsets_fetches {addr : Option UInt64} (hoffsets : c.cache.Offsets)
    (h : fetches c call = some (addr, c')) : c'.cache.Offsets := by
  obtain ⟨files', r, hfetched⟩ := fetched_of_fetches h
  cases hfetched with
  | last => exact hoffsets
  | skipped => exact hoffsets
  | found _ _ hgrows => exact hgrows.offsets hoffsets
  | failed _ hgrows => exact hgrows.offsets hoffsets

lemma lastAddr_remember (hvalue : c.cache.lookup page = some value) (hoffsets : c.cache.Offsets) :
    (c.remember page value).cache.lastAddr = c.pageData + value := by
  have hne : value ≠ unmappedPage := by
    rintro rfl
    exact absurd (hoffsets page _ hvalue) (by decide)
  exact if_neg hne

lemma lastAddrValid_fetches_iff {addr : Option UInt64} (hoffsets : c.cache.Offsets)
    (hvalid : c.LastAddrValid) (h : fetches c call = some (addr, c')) :
    c'.LastAddrValid ↔ c.MappingKept call := by
  obtain ⟨files', r, hfetched⟩ := fetched_of_fetches h
  cases hfetched with
  | last hlast => exact ⟨fun _ _ hf => absurd hlast hf.1, fun _ => hvalid⟩
  | skipped htest =>
    exact ⟨fun _ _ hf => absurd (hf.2.2.1.symm.trans htest) Bool.false_ne_true, fun _ => hvalid⟩
  | @found d page value _ _ hgrows hvalue _ hfails =>
    refine ⟨fun _ _ hf => absurd hf hfails, fun _ _ => ?_⟩
    rw [lastAddr_remember hvalue (hgrows.offsets hoffsets)]
    show (d.cache.lookup page).map (d.pageData + ·) = _
    rw [hvalue]
    rfl
  | failed _ hgrows hmapping hfails =>
    by_cases hreal : c.cache.lastPage = 0xFFFFFFFFFFFFFFFF
    · refine ⟨fun _ hne => absurd hreal hne, fun _ hne => ?_⟩
      rw [hgrows.lastPage] at hne
      exact absurd hreal hne
    · obtain ⟨offset, hoffset, haddr⟩ := Option.map_eq_some_iff.mp (hvalid hreal)
      have hlookup := hgrows.lookup _ _ hoffset
      have hiff : c'.LastAddrValid ↔ call.mappings.restore + offset = c.pageData + offset := by
        rw [LastAddrValid, lookupAddr, hgrows.lastPage, hgrows.lastAddr, hlookup, hmapping, ← haddr]
        simp [hreal]
      rw [hiff, UInt64.add_left_inj]
      exact ⟨fun heq _ _ => heq, fun hkept => hkept hreal hfails⟩

/-- In every run of calls, over any files and from any guest, the pointer to the last page stays
valid exactly as long as no call that fails to read a page moves the mapping. -/
theorem lastAddrValid_iff (calls : List FetchCall) :
    fetches.Stays LastAddrValid new calls ↔ fetches.Meets MappingKept new calls := by
  refine Machine.stays_iff_meets (fun c => c.cache.Offsets) ?_ ?_ ?_ ?_ calls
  · intro c call addr c' hoffsets h
    exact offsets_fetches hoffsets h
  · intro c call addr c' hoffsets hvalid h
    exact lastAddrValid_fetches_iff hoffsets hvalid h
  · intro page value h
    cases h
  · intro hne
    exact absurd rfl hne

instance (c : MappedCache) : Decidable c.LastAddrValid := inferInstanceAs (Decidable (_ → _))

/-- One page is read, a second one cannot be read, and the first one is asked for again. The kernel
maps the file at a new address each time. -/
def staleCalls : List FetchCall :=
  let page : PageData := fun _ => 0x90
  let unreadable : DumpOutcome := ⟨.unmapped, .unmapped, .unmapped⟩
  [⟨⟨[], []⟩, 0x1000, false, CacheSystem.alwaysRead page, ⟨0, 0, 0x10000, 0⟩⟩,
    ⟨⟨[0x1000], [page]⟩, 0x2000, false, unreadable, ⟨0, 0, 0x20000, 0x30000⟩⟩,
    ⟨⟨[0x1000], [page]⟩, 0x1000, false, unreadable, ⟨0, 0, 0, 0⟩⟩]

theorem lastAddrValid_staleCalls :
    fetches.answers new staleCalls = some [some 0x10000, none, some 0x10000] ∧
      (fetches.final new staleCalls).map (·.lookupAddr 0x1000) = some (some 0x30000) ∧
      ¬ fetches.Stays LastAddrValid new staleCalls := by
  decide +kernel

lemma relative_remember (hvalue : c.cache.lookup page = some value) (hoffsets : c.cache.Offsets)
    (haligned : PageCache.Aligned page) :
    (c.remember page value).relative = c.cache.setLast page value := by
  have hsub : c.pageData + value - c.pageData = value := by
    rw [UInt64.add_comm, UInt64.add_sub_cancel]
  rw [relative, lastAddr_remember hvalue hoffsets]
  show (c.remember page value).cache.setLast page
    (if page = 0xFFFFFFFFFFFFFFFF then _ else c.pageData + value - c.pageData) = _
  rw [if_neg haligned.ne_initial.symm, hsub]
  rfl

/-- A call fails when the model without a mapping fails, and otherwise gives the page at the same
offset. The states stay related unless it fails and moves the mapping. -/
theorem pageCacheFetch_relative (files : PageFiles) (page : UInt64) (testMode : Bool)
    (o : DumpOutcome) (m : Mappings) (hoffsets : c.cache.Offsets) :
    ∃ result c', c.pageCacheFetch files page testMode o m =
        (result, (PageCache.pageCacheFetch files c.relative page testMode o).2.1, c') ∧
      (c' = none ↔ (PageCache.pageCacheFetch files c.relative page testMode o).2.2 = none) ∧
      ∀ d, c' = some d →
        d.pageData ∈ c.pageData :: m.toList ∧
        result = (PageCache.pageCacheFetch files c.relative page testMode o).1.map
          (d.pageData + ·) ∧
        (result ≠ none ∨ c.MappingKept ⟨files, page, testMode, o, m⟩ →
          (PageCache.pageCacheFetch files c.relative page testMode o).2.2 = some d.relative) := by
  have haligned := PageCache.aligned_and_mask page
  have hfetched := fetched c ⟨files, page, testMode, o, m⟩
  generalize c.pageCacheFetch files page testMode o m = r at hfetched ⊢
  generalize PageCache.pageCacheFetch files c.relative page testMode o = r' at hfetched ⊢
  cases hfetched with
  | last hlast =>
    refine ⟨_, _, rfl, by simp, ?_⟩
    rintro d ⟨⟩
    refine ⟨List.mem_cons_self .., ?_, fun _ => rfl⟩
    have hreal : c.cache.lastPage ≠ 0xFFFFFFFFFFFFFFFF := hlast ▸ haligned.ne_initial.symm
    show some c.cache.lastAddr = some (c.pageData + if _ then _ else _)
    rw [if_neg hreal, UInt64.add_comm, UInt64.sub_add_cancel]
  | skipped =>
    refine ⟨_, _, rfl, by simp, ?_⟩
    rintro d ⟨⟩
    exact ⟨List.mem_cons_self .., rfl, fun _ => rfl⟩
  | found _ hpage hgrows hvalue hdata =>
    refine ⟨_, _, rfl, by simp, ?_⟩
    rintro d ⟨⟩
    have hoffsets' := hgrows.offsets hoffsets
    exact ⟨hdata, congrArg some (lastAddr_remember hvalue hoffsets'),
      fun _ => congrArg some (relative_remember hvalue hoffsets' (hpage ▸ haligned)).symm⟩
  | failed _ hgrows hrestore hfails =>
    refine ⟨_, _, rfl, by simp, ?_⟩
    rintro d ⟨⟩
    refine ⟨by simp [hrestore, Mappings.toList], rfl, fun h => congrArg some ?_⟩
    have hkept := h.resolve_left (not_not_intro rfl)
    simp only [relative, PageCache.setLast, hgrows.lastPage, hgrows.lastAddr, hrestore]
    split
    · rfl
    · next hreal => rw [hkept hreal hfails]
  | gone => exact ⟨_, _, rfl, by simp, nofun⟩

end MappedCache

end Nyx.Qemu
