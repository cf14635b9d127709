import Nyx.Pt.CofiInvariant

/-!
# Two lists of decoded code

Two disassemblers that have decoded the same code at the keys of `K` differ in which elements they
allocated; what a walk within `K` reads is the same. `analyse_assembly` keeps this for an address of
`K` and changes nothing elsewhere.
-/

namespace Nyx.Pt

namespace CofiMap

/-- No walk reads the `cofi_ptr` of the element: it is not in the map, or it is a branch. -/
def Idle (d : CofiMap) (r : Ref) : Prop :=
  ∀ k, d.map k = some r → (d.heap r).cofi.type ≠ .noCofiType

/-- The element is as before. -/
structure Keeps (d e : CofiMap) (r : Ref) : Prop where
  cofi : (e.heap r).cofi = (d.heap r).cofi
  target : (e.heap r).cofiTargetPtr = (d.heap r).cofiTargetPtr
  next : (d.heap r).cofi.type = .noCofiType → (e.heap r).cofiPtr = (d.heap r).cofiPtr

lemma Keeps.of_heap_eq {d e : CofiMap} {r : Ref} (h : e.heap r = d.heap r) : Keeps d e r := by
  constructor
  · rw [h]
  · rw [h]
  · intro _
    rw [h]

lemma Keeps.trans {d e f : CofiMap} {r : Ref} (h : Keeps d e r) (h' : Keeps e f r) :
    Keeps d f r where
  cofi := h'.cofi.trans h.cofi
  target := h'.target.trans h.target
  next htype := (h'.next (by rw [h.cofi, htype])).trans (h.next htype)

/-- The static objects are as in the beginning, and everything else is allocated. -/
structure Tidy (d : CofiMap) : Prop where
  static : ∀ r, (∀ n, r ≠ .element n) → d.heap r = new.heap r
  mapped : ∀ k r, d.map k = some r → ∃ n < d.allocated, r = .element n
  last : ∃ n < d.allocated, d.listElement = .element n

def write (d : CofiMap) (r : Ref) (x : CofiList) : CofiMap :=
  { d with heap := Function.update d.heap r x }

lemma heap_write_self (d : CofiMap) (r : Ref) (x : CofiList) : (d.write r x).heap r = x := by
  simp [write]

lemma heap_write_of_ne (d : CofiMap) {r q : Ref} (x : CofiList) (h : q ≠ r) :
    (d.write r x).heap q = d.heap q := by
  simp [write, h]

lemma heap_newListElement_of_ne (d : CofiMap) (header : CofiHeader) {r : Ref}
    (h : r ≠ .element d.allocated) : (d.newListElement header).heap r = d.heap r :=
  Function.update_of_ne h _ d.heap

namespace Tidy

variable {d : CofiMap} (h : d.Tidy)
include h

lemma ne_allocated {k : UInt32} {r : Ref} (hr : d.map k = some r) : r ≠ .element d.allocated := by
  obtain ⟨n, hn, rfl⟩ := h.mapped k r hr
  intro heq
  cases heq
  omega

lemma listElement_ne_allocated : d.listElement ≠ .element d.allocated := by
  obtain ⟨n, hn, hlast⟩ := h.last
  rw [hlast]
  intro heq
  cases heq
  omega

lemma write {r : Ref} (hr : ∃ n < d.allocated, r = .element n) (x : CofiList) :
    (d.write r x).Tidy where
  static q hq := by
    obtain ⟨n, -, rfl⟩ := hr
    rw [heap_write_of_ne d x (hq n)]
    exact h.static q hq
  mapped := h.mapped
  last := h.last

lemma mapPut (a : UInt64) {r : Ref} (hr : ∃ n < d.allocated, r = .element n) :
    (d.mapPut a r).Tidy where
  static := h.static
  mapped k q hq := by
    by_cases hk : k = mapKey a
    · subst hk
      rw [map_mapPut_self, Option.some.injEq] at hq
      rw [← hq]
      exact hr
    · rw [map_mapPut_of_ne d _ hk] at hq
      exact h.mapped k q hq
  last := h.last

lemma newListElement (header : CofiHeader) : (d.newListElement header).Tidy where
  static r hr := by
    rw [heap_newListElement_of_ne d header (hr d.allocated)]
    exact h.static r hr
  mapped k r hr := by
    obtain ⟨n, hn, heq⟩ := h.mapped k r hr
    exact ⟨n, Nat.lt_succ_of_lt hn, heq⟩
  last := ⟨d.allocated, Nat.lt_succ_self _, rfl⟩

lemma append {p : Option Ref} (hp : ∀ r, p = some r → ∃ n < d.allocated, r = .element n)
    (target : Ref) (header : CofiHeader) :
    ((d.editCofiPtr p target).newListElement header).Tidy := by
  cases p with
  | none => exact h.newListElement header
  | some r => exact (h.write (hp r rfl) _).newListElement header

lemma keeps_append {p : Option Ref} (hp : ∀ r, p = some r → d.Idle r) (target : Ref)
    (header : CofiHeader) (k : UInt32) (r : Ref) (hr : d.map k = some r) :
    Keeps d ((d.editCofiPtr p target).newListElement header) r := by
  obtain ⟨hcofi, htarget, hsame⟩ := heap_append d p target header (h.ne_allocated hr)
  refine ⟨hcofi, htarget, fun htype => ?_⟩
  by_cases hpr : p = some r
  · exact absurd htype (hp r hpr k hr)
  · rw [hsame hpr]

end Tidy

end CofiMap

open CofiMap

section Relation

variable (K : UInt32 → Prop)

/-- The element is in the map at keys of `K` only. -/
def Mine (d : CofiMap) (r : Ref) : Prop := ∀ k, d.map k = some r → K k

/-- What a call for code at `K` may do to the list: nothing is lost, and nothing changes that walks
outside of `K` read. -/
structure Frame (d e : CofiMap) : Prop where
  grows : ∀ k r, d.map k = some r → e.map k = some r
  map : ∀ k, ¬K k → e.map k = d.map k
  keeps : ∀ k r, ¬K k → d.map k = some r → Keeps d e r

/-- Both lists are as before outside of `K`. -/
structure Frames (d d' e e' : CofiMap) : Prop where
  left : Frame K d e
  right : Frame K d' e'

/-- A list that shares no element between keys of `K` and other keys. -/
structure Own (d : CofiMap) : Prop extends d.Tidy where
  mine : ∀ k r, K k → d.map k = some r → Mine K d r

variable {K} {d d' e e' f f' : CofiMap} {a : UInt64} {q q' r r' : Ref} {run run' : Option Ref}

namespace Frame

lemma refl (d : CofiMap) : Frame K d d where
  grows _ _ hr := hr
  map _ _ := rfl
  keeps _ _ _ _ := Keeps.of_heap_eq rfl

lemma trans (h : Frame K d e) (h' : Frame K e f) : Frame K d f where
  grows k r hr := h'.grows k r (h.grows k r hr)
  map k hk := (h'.map k hk).trans (h.map k hk)
  keeps k r hk hr := (h.keeps k r hk hr).trans (h'.keeps k r hk (h.grows k r hr))

lemma of_keeps (hmap : e.map = d.map) (h : ∀ k r, d.map k = some r → Keeps d e r) :
    Frame K d e where
  grows k r hr := by rw [hmap, hr]
  map k _ := by rw [hmap]
  keeps k r _ hr := h k r hr

lemma write (h : Mine K d r) (x : CofiList) : Frame K d (d.write r x) where
  grows _ _ hq := hq
  map _ _ := rfl
  keeps k q hk hq := by
    have hne : q ≠ r := by
      intro heq
      exact hk (h k (heq ▸ hq))
    exact Keeps.of_heap_eq (heap_write_of_ne d x hne)

lemma mapPut (hK : K (mapKey a)) (hnone : d.map (mapKey a) = none) (r : Ref) :
    Frame K d (d.mapPut a r) where
  grows k q hq := by
    have hne : k ≠ mapKey a := by
      intro heq
      rw [heq, hnone] at hq
      cases hq
    rw [map_mapPut_of_ne d r hne, hq]
  map k hk := by
    have hne : k ≠ mapKey a := by
      intro heq
      exact hk (heq ▸ hK)
    exact map_mapPut_of_ne d r hne
  keeps _ _ _ _ := Keeps.of_heap_eq rfl

end Frame

lemma Frames.refl (d d' : CofiMap) : Frames K d d' d d' := ⟨.refl d, .refl d'⟩

lemma Frames.trans (h : Frames K d d' e e') (h' : Frames K e e' f f') : Frames K d d' f f' :=
  ⟨h.left.trans h'.left, h.right.trans h'.right⟩

namespace Own

lemma of_map (h : Own K d) (htidy : e.Tidy) (hmap : e.map = d.map) : Own K e := by
  refine ⟨htidy, fun k r hk hr k' hr' => ?_⟩
  rw [hmap] at hr hr'
  exact h.mine k r hk hr k' hr'

lemma mapPut (h : Own K d) (hK : K (mapKey a)) (hq : ∃ n < d.allocated, q = .element n)
    (hmine : Mine K d q) : Own K (d.mapPut a q) := by
  refine ⟨h.toTidy.mapPut a hq, fun k r hk hr k' hr' => ?_⟩
  by_cases hka' : k' = mapKey a
  · rw [hka']
    exact hK
  · rw [map_mapPut_of_ne _ _ hka'] at hr'
    by_cases hka : k = mapKey a
    · rw [hka, map_mapPut_self, Option.some.injEq] at hr
      rw [← hr] at hr'
      exact hmine k' hr'
    · rw [map_mapPut_of_ne _ _ hka] at hr
      exact h.mine k r hk hr k' hr'

/-- Code at other keys is swept without touching the code at `K`. -/
lemma frame (h : Own K d) {L : UInt32 → Prop} (hf : Frame L d e) (hdisjoint : ∀ k, K k → ¬L k)
    (he : Own L e) : Own K e := by
  refine ⟨he.toTidy, fun k r hk hr k' hr' => ?_⟩
  -- a key of `L` cannot share an element with a key of `K`
  by_cases hL : L k'
  · exact absurd (he.mine k' r hL hr' k hr) (hdisjoint k hk)
  · rw [hf.map k' hL] at hr'
    rw [hf.map k (hdisjoint k hk)] at hr
    exact h.mine k r hk hr k' hr'

end Own

variable (K)

def Pair (d d' : CofiMap) (r r' : Ref) : Prop := ∃ k, K k ∧ d.map k = some r ∧ d'.map k = some r'

def Same (d d' : CofiMap) (r r' : Ref) : Prop := ((∀ n, r ≠ .element n) ∧ r' = r) ∨ Pair K d d' r r'

/-- The addresses that a walk goes to from an element belong to `K`. -/
def CofiHeader.Stays (header : CofiHeader) : Prop :=
  match header.type with
  | .conditionalBranch =>
    K (mapKey header.insAddr) ∧ K (mapKey header.targetAddr) ∧
      K (mapKey (header.insAddr + header.insSize.toUInt64))
  | .unconditionalDirectBranch => K (mapKey header.targetAddr)
  | type => type.Live

/-- Two elements that mean the same. The `cofi_ptr` of an open run is still to be written. -/
structure Node (run : Option Ref) (d d' : CofiMap) (r r' : Ref) : Prop where
  cofi : (d'.heap r').cofi = (d.heap r).cofi
  stays : (d.heap r).cofi.Stays K
  target : ∃ t t', (d.heap r).cofiTargetPtr = some t ∧ (d'.heap r').cofiTargetPtr = some t' ∧
    Same K d d' t t'
  next : (d.heap r).cofi.type = .noCofiType → run = some r ∨
    ∃ n n', (d.heap r).cofiPtr = some n ∧ (d'.heap r').cofiPtr = some n' ∧ Pair K d d' n n'

/-- Two lists with the same code at the keys of `K`. -/
structure Rel (run : Option Ref) (d d' : CofiMap) : Prop where
  left : Own K d
  right : Own K d'
  none_iff : ∀ k, K k → (d.map k = none ↔ d'.map k = none)
  unique : ∀ {r r' q q'}, Pair K d d' r r' → Pair K d d' q q' → (r = q ↔ r' = q')
  node : ∀ {r r'}, Pair K d d' r r' → Node K run d d' r r'

/-- Two elements that may become those of a key. -/
structure Slot (d d' : CofiMap) (r r' : Ref) : Prop where
  old : ∃ n < d.allocated, r = .element n
  old' : ∃ n < d'.allocated, r' = .element n
  twin : Pair K d d' r r' ∨ ((∀ k, d.map k ≠ some r) ∧ ∀ k, d'.map k ≠ some r')

variable {K}

lemma Pair.frame (h : Pair K d d' r r') (hf : Frames K d d' e e') : Pair K e e' r r' := by
  obtain ⟨k, hk, hr, hr'⟩ := h
  exact ⟨k, hk, hf.left.grows k r hr, hf.right.grows k r' hr'⟩

lemma Same.frame (h : Same K d d' r r') (hf : Frames K d d' e e') : Same K e e' r r' :=
  h.imp_right fun hp => hp.frame hf

lemma Pair.symm (h : Pair K d d' r r') : Pair K d' d r' r := by
  obtain ⟨k, hk, hr, hr'⟩ := h
  exact ⟨k, hk, hr', hr⟩

lemma Node.map (h : Node K run d d' r r') (hpair : ∀ {q q'}, Pair K d d' q q' → Pair K e e' q q')
    (hkeeps : Keeps d e r) (hkeeps' : Keeps d' e' r') (hrun : run = some r → run' = some r) :
    Node K run' e e' r r' where
  cofi := by rw [hkeeps.cofi, hkeeps'.cofi, h.cofi]
  stays := by
    rw [hkeeps.cofi]
    exact h.stays
  target := by
    obtain ⟨t, t', ht, ht', hsame⟩ := h.target
    exact ⟨t, t', hkeeps.target.trans ht, hkeeps'.target.trans ht', hsame.imp_right hpair⟩
  next htype := by
    rw [hkeeps.cofi] at htype
    rcases h.next htype with hopen | ⟨n, n', hn, hn', hnext⟩
    · exact .inl (hrun hopen)
    · have htype' : (d'.heap r').cofi.type = .noCofiType := by rw [h.cofi, htype]
      exact .inr ⟨n, n', (hkeeps.next htype).trans hn, (hkeeps'.next htype').trans hn', hpair hnext⟩

namespace Rel

variable (h : Rel K run d d')
include h

lemma mine_of_pair (hp : Pair K d d' r r') : Mine K d r ∧ Mine K d' r' := by
  obtain ⟨k, hk, hr, hr'⟩ := hp
  exact ⟨h.left.mine k r hk hr, h.right.mine k r' hk hr'⟩

lemma slot_of_pair (hp : Pair K d d' r r') : Slot K d d' r r' := by
  obtain ⟨k, -, hr, hr'⟩ := id hp
  exact ⟨h.left.mapped k r hr, h.right.mapped k r' hr', .inl hp⟩

lemma exists_pair {k : UInt32} (hk : K k) (hr : d.map k = some r) :
    ∃ r', d'.map k = some r' ∧ Pair K d d' r r' := by
  cases hr' : d'.map k with
  | none =>
    rw [(h.none_iff k hk).mpr hr'] at hr
    cases hr
  | some r' => exact ⟨r', rfl, k, hk, hr, hr'⟩

lemma header_eq (hs : Same K d d' r r') : (d'.heap r').cofi = (d.heap r).cofi := by
  rcases hs with ⟨hstatic, rfl⟩ | hp
  · rw [h.left.static _ hstatic, h.right.static _ hstatic]
  · exact (h.node hp).cofi

end Rel

lemma pair_mapPut (h : Pair K (d.mapPut a q) (d'.mapPut a q') r r') :
    Pair K d d' r r' ∨ (r = q ∧ r' = q') := by
  obtain ⟨k, hk, hr, hr'⟩ := h
  by_cases hka : k = mapKey a
  · subst hka
    rw [map_mapPut_self, Option.some.injEq] at hr hr'
    exact .inr ⟨hr.symm, hr'.symm⟩
  · rw [map_mapPut_of_ne _ _ hka] at hr hr'
    exact .inl ⟨k, hk, hr, hr'⟩

namespace Slot

variable (hq : Slot K d d' q q') (h : Rel K run d d')
include hq h

lemma eq_iff (hp : Pair K d d' r r') : r = q ↔ r' = q' := by
  rcases hq.twin with hpair | ⟨hnot, hnot'⟩
  · exact h.unique hp hpair
  · obtain ⟨k, -, hk, hk'⟩ := hp
    exact iff_of_false (fun heq => hnot k (heq ▸ hk)) fun heq => hnot' k (heq ▸ hk')

lemma mine : Mine K d q ∧ Mine K d' q' := by
  rcases hq.twin with hp | ⟨hr, hr'⟩
  · exact h.mine_of_pair hp
  · exact ⟨fun k hk => absurd hk (hr k), fun k hk => absurd hk (hr' k)⟩

lemma frames_write (x x' : CofiList) : Frames K d d' (d.write q x) (d'.write q' x') :=
  ⟨.write (hq.mine h).1 x, .write (hq.mine h).2 x'⟩

end Slot

namespace Rel

lemma of_pairs (h : Rel K run d d') (hleft : Own K e) (hright : Own K e')
    (hnone : ∀ k, K k → (e.map k = none ↔ e'.map k = none))
    (hpair : ∀ {r r'}, Pair K e e' r r' → Pair K d d' r r')
    (hnode : ∀ {r r'}, Pair K d d' r r' → Node K run' e e' r r') : Rel K run' e e' where
  left := hleft
  right := hright
  none_iff := hnone
  unique h₁ h₂ := h.unique (hpair h₁) (hpair h₂)
  node hp := hnode (hpair hp)

lemma of_keeps (h : Rel K run d d') (htidy : e.Tidy) (htidy' : e'.Tidy) (hmap : e.map = d.map)
    (hmap' : e'.map = d'.map) (hkeeps : ∀ k r, d.map k = some r → Keeps d e r)
    (hkeeps' : ∀ k r, d'.map k = some r → Keeps d' e' r) : Rel K run e e' ∧ Frames K d d' e e' := by
  have hframes : Frames K d d' e e' := ⟨.of_keeps hmap hkeeps, .of_keeps hmap' hkeeps'⟩
  refine ⟨h.of_pairs (h.left.of_map htidy hmap) (h.right.of_map htidy' hmap') ?_ ?_ ?_, hframes⟩
  · intro k hk
    rw [hmap, hmap']
    exact h.none_iff k hk
  · rintro r r' ⟨k, hk, hr, hr'⟩
    exact ⟨k, hk, hmap ▸ hr, hmap' ▸ hr'⟩
  · intro r r' hp
    obtain ⟨k, hk, hr, hr'⟩ := id hp
    exact (h.node hp).map (fun hp => hp.frame hframes) (hkeeps k r hr) (hkeeps' k r' hr') id

lemma symm (h : Rel K none d d') : Rel K none d' d := by
  refine ⟨h.right, h.left, fun k hk => (h.none_iff k hk).symm,
    fun h₁ h₂ => (h.unique h₁.symm h₂.symm).symm, fun hp => ?_⟩
  have hnode := h.node hp.symm
  constructor
  · exact hnode.cofi.symm
  · rw [hnode.cofi]
    exact hnode.stays
  · obtain ⟨t, t', ht, ht', hsame⟩ := hnode.target
    refine ⟨t', t, ht', ht, ?_⟩
    rcases hsame with ⟨hstatic, rfl⟩ | hpt
    · exact .inl ⟨hstatic, rfl⟩
    · exact .inr hpt.symm
  · intro htype
    rw [hnode.cofi] at htype
    rcases hnode.next htype with hopen | ⟨n, n', hn, hn', hpn⟩
    · cases hopen
    · exact .inr ⟨n', n, hn', hn, hpn.symm⟩

lemma frame_left (h : Rel K none d d') {L : UInt32 → Prop} (hf : Frame L d e)
    (hdisjoint : ∀ k, K k → ¬L k) (he : Own L e) : Rel K none e d' := by
  have hmap : ∀ k, K k → e.map k = d.map k := fun k hk => hf.map k (hdisjoint k hk)
  apply h.of_pairs (h.left.frame hf hdisjoint he) h.right
  · intro k hk
    rw [hmap k hk]
    exact h.none_iff k hk
  · rintro r r' ⟨k, hk, hr, hr'⟩
    exact ⟨k, hk, hmap k hk ▸ hr, hr'⟩
  · intro r r' hp
    obtain ⟨k, hk, hr, -⟩ := id hp
    apply (h.node hp).map _ (hf.keeps k r (hdisjoint k hk) hr) (.of_heap_eq rfl) id
    rintro q q' ⟨k, hk, hq, hq'⟩
    exact ⟨k, hk, (hmap k hk).trans hq, hq'⟩

lemma mono_run (h : Rel K none d d') (run : Option Ref) : Rel K run d d' where
  __ := h
  node hp := (h.node hp).map id (.of_heap_eq rfl) (.of_heap_eq rfl) fun hopen => nomatch hopen

section

variable (h : Rel K run d d')
include h

lemma write (hq : Slot K d d' q q') {x x' : CofiList}
    (hrun : ∀ r, run = some r → r = q ∨ run' = some r) (hcofi : x'.cofi = x.cofi)
    (hstays : x.cofi.Stays K)
    (htarget : ∃ t t', x.cofiTargetPtr = some t ∧ x'.cofiTargetPtr = some t' ∧ Same K d d' t t')
    (hnext : x.cofi.type = .noCofiType → run' = some q ∨
      ∃ n n', x.cofiPtr = some n ∧ x'.cofiPtr = some n' ∧ Pair K d d' n n') :
    Rel K run' (d.write q x) (d'.write q' x') ∧
      Node K run' (d.write q x) (d'.write q' x') q q' ∧
      Frames K d d' (d.write q x) (d'.write q' x') := by
  have hframes := hq.frames_write h x x'
  have hnode : Node K run' (d.write q x) (d'.write q' x') q q' := by
    constructor
    · rw [heap_write_self, heap_write_self, hcofi]
    · rw [heap_write_self]
      exact hstays
    · obtain ⟨t, t', ht, ht', hsame⟩ := htarget
      rw [heap_write_self, heap_write_self]
      exact ⟨t, t', ht, ht', hsame.frame hframes⟩
    · rw [heap_write_self, heap_write_self]
      intro htype
      rcases hnext htype with hopen | ⟨n, n', hn, hn', hpair⟩
      · exact .inl hopen
      · exact .inr ⟨n, n', hn, hn', hpair.frame hframes⟩
  refine ⟨h.of_pairs (h.left.of_map (h.left.toTidy.write hq.old x) rfl)
    (h.right.of_map (h.right.toTidy.write hq.old' x') rfl) h.none_iff id ?_, hnode, hframes⟩
  intro r r' hpair
  have heq := hq.eq_iff h hpair
  by_cases hr : r = q
  · rw [hr, heq.mp hr]
    exact hnode
  · apply (h.node hpair).map (fun hp => hp.frame hframes) (.of_heap_eq (heap_write_of_ne d x hr))
      (.of_heap_eq (heap_write_of_ne d' x' fun hr' => hr (heq.mpr hr')))
    exact fun hopen => (hrun r hopen).resolve_left hr

lemma mapPut (hK : K (mapKey a)) (hnone : d.map (mapKey a) = none)
    (hq : Slot K d d' q q') (hnode : Node K run d d' q q') :
    Rel K run (d.mapPut a q) (d'.mapPut a q') ∧ Pair K (d.mapPut a q) (d'.mapPut a q') q q' ∧
      Frames K d d' (d.mapPut a q) (d'.mapPut a q') := by
  have hf : Frames K d d' (d.mapPut a q) (d'.mapPut a q') :=
    ⟨.mapPut hK hnone q, .mapPut hK ((h.none_iff _ hK).mp hnone) q'⟩
  have hnew : Pair K (d.mapPut a q) (d'.mapPut a q') q q' :=
    ⟨mapKey a, hK, map_mapPut_self _ _ _, map_mapPut_self _ _ _⟩
  obtain ⟨hmine, hmine'⟩ := hq.mine h
  refine ⟨⟨h.left.mapPut hK hq.old hmine, h.right.mapPut hK hq.old' hmine', ?_, ?_, ?_⟩, hnew, hf⟩
  · intro k hk
    by_cases hka : k = mapKey a
    · rw [hka, map_mapPut_self, map_mapPut_self]
      exact iff_of_false (by simp) (by simp)
    · rw [map_mapPut_of_ne _ _ hka, map_mapPut_of_ne _ _ hka]
      exact h.none_iff k hk
  · intro r₁ r₁' r₂ r₂' h₁ h₂
    rcases pair_mapPut h₁ with hp₁ | ⟨hr₁, hr₁'⟩ <;> rcases pair_mapPut h₂ with hp₂ | ⟨hr₂, hr₂'⟩
    · exact h.unique hp₁ hp₂
    · rw [hr₂, hr₂']
      exact hq.eq_iff h hp₁
    · rw [hr₁, hr₁', eq_comm, @eq_comm _ q']
      exact hq.eq_iff h hp₂
    · rw [hr₁, hr₂, hr₁', hr₂']
      exact iff_of_true rfl rfl
  · intro r r' hp
    rcases pair_mapPut hp with hold | ⟨rfl, rfl⟩
    · exact (h.node hold).map (fun hp => hp.frame hf) (.of_heap_eq rfl) (.of_heap_eq rfl) id
    · exact hnode.map (fun hp => hp.frame hf) (.of_heap_eq rfl) (.of_heap_eq rfl) id

lemma setHeader (hq : Slot K d d' q q') (hnode : Node K run d d' q q') {header : CofiHeader}
    (hstays : header.Stays K) (run' : Option Ref) (hrun : ∀ r, run = some r → r = q ∨ run' = some r)
    (hopen : header.type = .noCofiType → run' = some q) :
    Rel K run' (d.setHeader q header) (d'.setHeader q' header) ∧
      Node K run' (d.setHeader q header) (d'.setHeader q' header) q q' ∧
      Frames K d d' (d.setHeader q header) (d'.setHeader q' header) :=
  h.write (x := { d.heap q with cofi := header }) hq hrun rfl hstays hnode.target
    fun htype => .inl (hopen htype)

lemma setCofiPtr (hq : Slot K d d' q q') (hnode : Node K run d d' q q')
    (n n' : Ref) (run' : Option Ref) (hrun : ∀ r, run = some r → r = q ∨ run' = some r)
    (hopen : run' = some q ∨ Pair K d d' n n') :
    Rel K run' (d.setCofiPtr q n) (d'.setCofiPtr q' n') ∧
      Node K run' (d.setCofiPtr q n) (d'.setCofiPtr q' n') q q' ∧
      Frames K d d' (d.setCofiPtr q n) (d'.setCofiPtr q' n') :=
  h.write (x := { d.heap q with cofiPtr := some n }) hq hrun hnode.cofi hnode.stays hnode.target
    fun _ => hopen.imp_right fun hpair => ⟨n, n', rfl, rfl, hpair⟩

lemma newListElement (header : CofiHeader) :
    Rel K run (d.newListElement header) (d'.newListElement header) ∧
      Frames K d d' (d.newListElement header) (d'.newListElement header) := by
  have hkeeps : ∀ {c : CofiMap}, c.Tidy → ∀ k r, c.map k = some r →
      Keeps c (c.newListElement header) r := fun hc k r hr =>
    .of_heap_eq (heap_newListElement_of_ne _ header (hc.ne_allocated hr))
  exact h.of_keeps (h.left.toTidy.newListElement header) (h.right.toTidy.newListElement header) rfl
    rfl (hkeeps h.left.toTidy) (hkeeps h.right.toTidy)

end

lemma setCofiTargetPtr (h : Rel K none d d') (hp : Pair K d d' q q') {t t' : Ref}
    (ht : Same K d d' t t') :
    Rel K none (d.setCofiTargetPtr q t) (d'.setCofiTargetPtr q' t') ∧
      Frames K d d' (d.setCofiTargetPtr q t) (d'.setCofiTargetPtr q' t') := by
  have hnode := h.node hp
  exact And.imp_right And.right (h.write (x := { d.heap q with cofiTargetPtr := some t })
    (h.slot_of_pair hp) (by simp) hnode.cofi hnode.stays ⟨t, t', rfl, rfl, ht⟩ hnode.next)

end Rel

/-! ### Sweeps -/

lemma CofiMap.Idle.of_keeps (h : d.Idle r) (hmap : e.map = d.map)
    (hkeeps : ∀ k, d.map k = some r → Keeps d e r) : e.Idle r := by
  intro k hk
  rw [hmap] at hk
  rw [(hkeeps k hk).cofi]
  exact h k hk

/-- The code at `K`, read in one mode: control does not leave `K`, and plain instructions lead to a
branch before their address range or the code ends. -/
structure ClosedCode (K : UInt32 → Prop) (img : Image) (filter : AddrFilter) : Prop where
  next : ∀ a ins, K (mapKey a) → img a = .insn ins →
    (ins.opcodeAnalyzer = .noCofiType ∨ ins.opcodeAnalyzer = .conditionalBranch ∨
      ins.opcodeAnalyzer = .unconditionalDirectBranch) → K (mapKey (a + ins.size.toUInt64))
  target : ∀ a ins, K (mapKey a) → img a = .insn ins →
    (ins.opcodeAnalyzer = .conditionalBranch ∨ ins.opcodeAnalyzer = .unconditionalDirectBranch) →
      K (mapKey ins.target)
  complete : ∀ a ins, K (mapKey a) → img a = .insn ins → ins.opcodeAnalyzer = .noCofiType →
    (∃ next, img (a + ins.size.toUInt64) = .insn next) ∧
      ∀ i, a ≤ (filter i).max → a + ins.size.toUInt64 ≤ (filter i).max

/-- The first plain instruction since the last branch belongs to the last element, and the element
before it is not read. -/
structure Sweep.Kept (s : Sweep) : Prop where
  pred : ∀ p, s.predecessor = some p →
    s.dis.Idle p ∧ p ≠ s.dis.listElement ∧ ∃ n < s.dis.allocated, p = .element n
  run : s.lastNoCofiAddr ≠ unset → s.dis.map (mapKey s.lastNoCofiAddr) = some s.dis.listElement

/-- Two sweeps over the same code that come to an address. -/
structure SweepRel (K : UInt32 → Prop) (img : Image) (limit : UInt64) (d₀ d₀' : CofiMap)
    (s s' : Sweep) : Prop where
  dis : Rel K (if s.lastNop then some s.dis.listElement else none) s.dis s'.dis
  frames : Frames K d₀ d₀' s.dis s'.dis
  kept : s.Kept
  kept' : s'.Kept
  idle : s.lastNop = false →
    s.dis.Idle s.dis.listElement ∧ s'.dis.Idle s'.dis.listElement ∧ s.lastNoCofiAddr = unset
  opened : s.lastNop = true → Pair K s.dis s'.dis s.dis.listElement s'.dis.listElement ∧
    (s.dis.heap s.dis.listElement).cofi.type = .noCofiType ∧
    (∃ ins, img s.address = .insn ins) ∧ s.address ≤ limit
  inside : K (mapKey s.address)
  address : s'.address = s.address
  lastNop : s'.lastNop = s.lastNop
  lastNoCofiAddr : s'.lastNoCofiAddr = s.lastNoCofiAddr
  first : Option.Rel (Pair K s.dis s'.dis) s.first s'.first
  last : s.first.isSome → (s'.dis.heap s'.dis.listElement).cofi = (s.dis.heap s.dis.listElement).cofi

/-- Two sweeps that have an element for the instruction they are at. -/
structure Opened (K : UInt32 → Prop) (d₀ d₀' : CofiMap) (s s' : Sweep) : Prop where
  dis : Rel K (some s.dis.listElement) s.dis s'.dis
  frames : Frames K d₀ d₀' s.dis s'.dis
  kept : s.Kept
  kept' : s'.Kept
  slot : Slot K s.dis s'.dis s.dis.listElement s'.dis.listElement
  node : Node K (some s.dis.listElement) s.dis s'.dis s.dis.listElement s'.dis.listElement
  type : (s.dis.heap s.dis.listElement).cofi.type = .noCofiType
  lastNoCofiAddr : s'.lastNoCofiAddr = s.lastNoCofiAddr
  first : Option.Rel (Pair K s.dis s'.dis) s.first s'.first

/-- Related lists, none with an open element. -/
structure AtRest (K : UInt32 → Prop) (d d' : CofiMap) : Prop where
  dis : Rel K none d d'
  idle : d.Idle d.listElement
  idle' : d'.Idle d'.listElement

/-- Related sweeps at their end. -/
structure SweepEnd (K : UInt32 → Prop) (d₀ d₀' : CofiMap) (s s' : Sweep) : Prop
    extends AtRest K s.dis s'.dis where
  frames : Frames K d₀ d₀' s.dis s'.dis
  failedPage : s'.failedPage = s.failedPage
  first : Option.Rel (Pair K s.dis s'.dis) s.first s'.first
  last : s.first.isSome → (s'.dis.heap s'.dis.listElement).cofi = (s.dis.heap s.dis.listElement).cofi

lemma optionRel_pair_frame {o o' : Option Ref} (h : Option.Rel (Pair K d d') o o')
    (hf : Frames K d d' e e') : Option.Rel (Pair K e e') o o' := by
  cases h with
  | none => exact .none
  | some hp => exact .some (hp.frame hf)

variable {s s' : Sweep}

namespace Sweep

lemma map_append (s : Sweep) (header : CofiHeader) : (s.append header).dis.map = s.dis.map :=
  CofiMap.map_append _ _ _ header

lemma Kept.keeps_append (h : s.Kept) (ht : s.dis.Tidy) (header : CofiHeader) (k : UInt32) (r : Ref)
    (hr : s.dis.map k = some r) : Keeps s.dis (s.append header).dis r :=
  ht.keeps_append (fun p hp => (h.pred p hp).1) _ header k r hr

lemma rel_append (hrel : Rel K run s.dis s'.dis) (h : s.Kept) (h' : s'.Kept) (header : CofiHeader) :
    Rel K run (s.append header).dis (s'.append header).dis ∧
      Frames K s.dis s'.dis (s.append header).dis (s'.append header).dis := by
  have htidy : ∀ {t : Sweep}, t.dis.Tidy → t.Kept → (t.append header).dis.Tidy :=
    fun ht hk => ht.append (fun p hp => (hk.pred p hp).2.2) _ header
  exact hrel.of_keeps (htidy hrel.left.toTidy h) (htidy hrel.right.toTidy h') (map_append s header)
    (map_append s' header) (h.keeps_append hrel.left.toTidy header)
    (h'.keeps_append hrel.right.toTidy header)

lemma listElement_append (s : Sweep) (header : CofiHeader) :
    (s.append header).dis.listElement = .element s.dis.allocated := by
  simp [append, newListElement]

lemma heap_append_last (s : Sweep) (header : CofiHeader) :
    (s.append header).dis.heap (s.append header).dis.listElement =
      { pendingElement with cofi := header } :=
  heap_newListElement_self _ header

lemma unmapped_append (ht : s.dis.Tidy) (header : CofiHeader) (k : UInt32) :
    (s.append header).dis.map k ≠ some (s.append header).dis.listElement := by
  rw [map_append, listElement_append]
  intro hk
  exact ht.ne_allocated hk rfl

lemma Kept.append (h : s.Kept) (ht : s.dis.Tidy) (hidle : s.dis.Idle s.dis.listElement)
    (hunset : s.lastNoCofiAddr = unset) (header : CofiHeader) : (s.append header).Kept := by
  refine ⟨fun p hp => ?_, fun hne => absurd hunset hne⟩
  cases hp
  refine ⟨hidle.of_keeps (map_append s header) fun k hk => h.keeps_append ht header k _ hk, ?_, ?_⟩
  · rw [listElement_append]
    exact ht.listElement_ne_allocated
  · obtain ⟨n, hn, hlast⟩ := ht.last
    refine ⟨n, ?_, hlast⟩
    simp only [Sweep.append, newListElement, allocated_editCofiPtr]
    omega

end Sweep

lemma node_pending {header : CofiHeader} (hr : d.heap r = { pendingElement with cofi := header })
    (hr' : d'.heap r' = { pendingElement with cofi := header }) (hstays : header.Stays K)
    (hopen : header.type = .noCofiType → run = some r) : Node K run d d' r r' := by
  constructor
  · rw [hr, hr']
  · rw [hr]
    exact hstays
  · rw [hr, hr']
    exact ⟨.pendingObj, .pendingObj, rfl, rfl, .inl ⟨by simp, rfl⟩⟩
  · rw [hr]
    exact fun htype => .inl (hopen htype)

variable {img : Image} {filter : AddrFilter} {addr limit : UInt64} {d₀ d₀' : CofiMap} {ins : CsInsn}

lemma SweepRel.openedRel (h : SweepRel K img limit d₀ d₀' s s') (addr : UInt64) (ins : CsInsn)
    (next page : UInt64) :
    Opened K d₀ d₀' (Sweep.opened { s with address := next, failedPage := page } addr ins)
      (Sweep.opened { s' with address := next, failedPage := page } addr ins) := by
  have hdis := h.dis
  have hmoved : ∀ {t : Sweep} {nop : Bool}, t.Kept →
      Sweep.Kept { t with address := next, lastNop := nop, failedPage := page } :=
    fun ht => ⟨ht.pred, ht.run⟩
  unfold Sweep.opened
  rw [h.lastNop]
  cases hnop : s.lastNop with
  | true =>
    obtain ⟨hpair, htype, -⟩ := h.opened hnop
    rw [hnop, if_pos rfl] at hdis
    exact { h with
      dis := hdis, kept := hmoved h.kept, kept' := hmoved h.kept', slot := hdis.slot_of_pair hpair
      node := hdis.node hpair, type := htype }
  | false =>
    obtain ⟨hidle, hidle', hunset⟩ := h.idle hnop
    rw [hnop, if_neg (by decide)] at hdis
    rw [if_neg (by decide), if_neg (by decide)]
    obtain ⟨hrel, hframes⟩ := Sweep.rel_append hdis h.kept h.kept' ⟨addr, 0, ins.size, .noCofiType⟩
    constructor
    · exact hrel.mono_run _
    · exact h.frames.trans hframes
    · exact (hmoved h.kept).append hdis.left.toTidy hidle hunset _
    · exact (hmoved h.kept').append hdis.right.toTidy hidle' (h.lastNoCofiAddr.trans hunset) _
    · exact ⟨hrel.left.last, hrel.right.last, .inr ⟨Sweep.unmapped_append hdis.left.toTidy _,
        Sweep.unmapped_append hdis.right.toTidy _⟩⟩
    · exact node_pending (Sweep.heap_append_last _ _) (Sweep.heap_append_last _ _) trivial
        fun _ => rfl
    · rw [Sweep.heap_append_last]
    · exact h.lastNoCofiAddr
    · exact optionRel_pair_frame h.first hframes

lemma CofiMap.Idle.mapPut {p : Ref} (h : d.Idle p) (hne : p ≠ q) (a : UInt64) :
    (d.mapPut a q).Idle p := by
  intro k hk
  by_cases hka : k = mapKey a
  · rw [hka, map_mapPut_self, Option.some.injEq] at hk
    exact absurd hk.symm hne
  · rw [map_mapPut_of_ne d q hka] at hk
    exact h k hk

lemma CofiMap.Idle.write {p : Ref} (h : d.Idle p) (hne : p ≠ q) (x : CofiList) :
    (d.write q x).Idle p := by
  intro k hk
  rw [heap_write_of_ne d x hne]
  exact h k hk

namespace Sweep.Kept

lemma write (h : s.Kept) (x : CofiList) :
    Kept { s with dis := s.dis.write s.dis.listElement x } := by
  refine ⟨fun p hp => ?_, h.run⟩
  obtain ⟨hidle, hne, hp⟩ := h.pred p hp
  exact ⟨hidle.write hne x, hne, hp⟩

lemma addNoCofi (h : s.Kept) (hfree : s.dis.map (mapKey addr) = none) : (s.addNoCofi addr).Kept := by
  constructor
  · intro p hp
    obtain ⟨hidle, hne, hp⟩ := h.pred p hp
    exact ⟨hidle.mapPut hne addr, hne, hp⟩
  · intro _
    simp only [Sweep.addNoCofi, Sweep.setFirst]
    split
    · exact map_mapPut_self _ _ _
    · next hset =>
      exact (Frame.mapPut (K := fun _ => True) trivial hfree _).grows _ _ (h.run hset)

lemma addBranch (h : s.Kept) : (s.addBranch addr ins).Kept := by
  refine ⟨fun p hp => ?_, fun hne => absurd rfl hne⟩
  obtain ⟨hidle, hne, hp⟩ := h.pred p hp
  exact ⟨(hidle.write hne _).mapPut hne addr, hne, hp⟩

end Sweep.Kept

/-- Two lists whose last elements are the branch or the transfer that a run has led to. -/
structure Closed (K : UInt32 → Prop) (d₀ d₀' d d' : CofiMap) : Prop where
  dis : Rel K none d d'
  pair : Pair K d d' d.listElement d'.listElement
  frames : Frames K d₀ d₀' d d'
  type : (d.heap d.listElement).cofi.type ≠ .noCofiType

lemma Closed.last (h : Closed K d₀ d₀' d d') :
    (d'.heap d'.listElement).cofi = (d.heap d.listElement).cofi := (h.dis.node h.pair).cofi

lemma Closed.atRest (h : Closed K d₀ d₀' d d') : AtRest K d d' := by
  refine ⟨h.dis, fun _ _ => h.type, fun _ _ => ?_⟩
  rw [h.last]
  exact h.type

omit K in
lemma optionRel_setFirst {P : Ref → Ref → Prop} {o o' : Option Ref} (h : Option.Rel P o o')
    (hr : P r r') :
    Option.Rel P (if o.isNone then some r else o) (if o'.isNone then some r' else o') := by
  cases h with
  | none => exact .some hr
  | some hp => exact .some hp

namespace Opened

variable (h : Opened K d₀ d₀' s s')
include h

lemma linkKnown (hfailed : s'.failedPage = s.failedPage) (hK : K (mapKey addr)) {known known' : Ref}
    (hknown : s.dis.mapGet addr = some known) (hknown' : s'.dis.mapGet addr = some known') :
    SweepEnd K d₀ d₀' (s.linkKnown addr known) (s'.linkKnown addr known') := by
  -- the open run leads to the known element
  obtain ⟨hrel, -, hlink⟩ := h.dis.setCofiPtr h.slot h.node known known' none
    (fun r hr => .inl (Option.some.inj hr).symm) (.inr ⟨mapKey addr, hK, hknown, hknown'⟩)
  -- and a new element is appended that nothing leads to
  obtain ⟨hnew, happend⟩ := Sweep.rel_append hrel
    (h.kept.write { s.dis.heap s.dis.listElement with cofiPtr := some known })
    (h.kept'.write { s'.dis.heap s'.dis.listElement with cofiPtr := some known' })
    ⟨addr, 0, 0, .noCofiType⟩
  have hframes := hlink.trans happend
  constructor
  · exact ⟨hnew, fun k hk => absurd hk (Sweep.unmapped_append hrel.left.toTidy _ k),
      fun k hk => absurd hk (Sweep.unmapped_append hrel.right.toTidy _ k)⟩
  · exact h.frames.trans hframes
  · exact hfailed
  · exact optionRel_pair_frame h.first hframes
  · intro _
    unfold Sweep.linkKnown
    rw [Sweep.heap_append_last, Sweep.heap_append_last]

lemma close (hK : K (mapKey addr)) (hnone : s.dis.map (mapKey addr) = none)
    {header : CofiHeader} (hstays : header.Stays K) (htype : header.type ≠ .noCofiType) :
    Closed K s.dis s'.dis ((s.dis.setHeader s.dis.listElement header).mapPut addr s.dis.listElement)
      ((s'.dis.setHeader s'.dis.listElement header).mapPut addr s'.dis.listElement) := by
  obtain ⟨hrel, hnode, hset⟩ := h.dis.setHeader h.slot h.node hstays none
    (fun r hr => .inl (Option.some.inj hr).symm) (fun hc => absurd hc htype)
  obtain ⟨hput, hpair, hmap⟩ := hrel.mapPut hK hnone ⟨h.slot.old, h.slot.old', h.slot.twin⟩ hnode
  refine ⟨hput, hpair, hset.trans hmap, ?_⟩
  have hheader : ((s.dis.setHeader s.dis.listElement header).heap s.dis.listElement).cofi = header := by
    simp [setHeader]
  exact fun hc => htype ((congrArg CofiHeader.type hheader).symm.trans hc)

lemma transfer (hset : s.lastNoCofiAddr ≠ unset) (hK : K (mapKey addr))
    (hnone : s.dis.map (mapKey addr) = none) {run new : CofiHeader} (hrun : run.type = .noCofiType)
    (hstays : new.Stays K) (htype : new.type ≠ .noCofiType) :
    Closed K s.dis s'.dis (s.dis.transfer addr run new) (s'.dis.transfer addr run new) := by
  have hpair : Pair K s.dis s'.dis s.dis.listElement s'.dis.listElement := by
    rcases h.slot.twin with hpair | ⟨hnot, -⟩
    · exact hpair
    · exact absurd (h.kept.run hset) (hnot _)
  have hkeep : ∀ r, some s.dis.listElement = some r →
      r = s.dis.listElement ∨ some s.dis.listElement = some r := fun r hr => .inr hr
  have hrunStays : run.Stays K := by
    simp only [CofiHeader.Stays, hrun]
    trivial
  -- the header of the run, and its provisional `cofi_ptr`
  obtain ⟨h₁, hnode₁, hf₁⟩ := h.dis.setHeader h.slot h.node hrunStays (some s.dis.listElement) hkeep
    (fun _ => rfl)
  obtain ⟨h₂, -, hf₂⟩ := h₁.setCofiPtr ⟨h.slot.old, h.slot.old', h.slot.twin⟩ hnode₁
    s.dis.listElement s'.dis.listElement (some s.dis.listElement) hkeep (.inl rfl)
  -- the element of the transfer
  obtain ⟨h₃, hf₃⟩ := h₂.newListElement new
  have hfresh : ∀ {d : CofiMap}, d.Tidy → ∀ k, d.map k ≠ some (.element d.allocated) :=
    fun hd k hk => hd.ne_allocated hk rfl
  obtain ⟨h₄, hnew, hf₄⟩ := h₃.mapPut hK hnone
    ⟨h₃.left.last, h₃.right.last, .inr ⟨hfresh h₂.left.toTidy, hfresh h₂.right.toTidy⟩⟩
    (node_pending (heap_newListElement_self _ new) (heap_newListElement_self _ new) hstays
      (fun hc => absurd hc htype))
  have hf := hf₁.trans (hf₂.trans (hf₃.trans hf₄))
  -- the run leads to it
  have hpair₄ := hpair.frame hf
  obtain ⟨h₅, -, hf₅⟩ := h₄.setCofiPtr (h₄.slot_of_pair hpair₄) (h₄.node hpair₄) _ _ none
    (fun r hr => .inl (Option.some.inj hr).symm) (.inr hnew)
  refine ⟨h₅, hnew.frame hf₅, hf.trans hf₅, ?_⟩
  have hne : (.element s.dis.allocated : Ref) ≠ s.dis.listElement :=
    h.dis.left.listElement_ne_allocated.symm
  have hheader : ((s.dis.transfer addr run new).heap (.element s.dis.allocated)).cofi = new := by
    simp [CofiMap.transfer, CofiMap.setCofiPtr, CofiMap.newListElement, setHeader,
      CofiMap.mapPut, hne]
  exact fun hc => htype ((congrArg CofiHeader.type hheader).symm.trans hc)

lemma addNoCofi (hK : K (mapKey addr))
    (hnone : s.dis.map (mapKey addr) = none) (haddress : s'.address = s.address)
    (hinside : K (mapKey s.address)) (hgoes : (∃ ins, img s.address = .insn ins) ∧ s.address ≤ limit) :
    SweepRel K img limit d₀ d₀' (s.addNoCofi addr) (s'.addNoCofi addr) := by
  obtain ⟨hrel, hpair, hframes⟩ := h.dis.mapPut hK hnone h.slot h.node
  constructor
  · exact hrel
  · exact h.frames.trans hframes
  · exact h.kept.addNoCofi hnone
  · exact h.kept'.addNoCofi ((h.dis.none_iff _ hK).mp hnone)
  · intro hc
    cases hc
  · exact fun _ => ⟨hpair, h.type, hgoes⟩
  · exact hinside
  · exact haddress
  · rfl
  · simp only [Sweep.addNoCofi, Sweep.setFirst, h.lastNoCofiAddr]
  · exact optionRel_setFirst (optionRel_pair_frame h.first hframes) hpair
  · exact fun _ => h.node.cofi

lemma addBranch (hK : K (mapKey addr)) (hnone : s.dis.map (mapKey addr) = none)
    (haddress : s'.address = s.address) (hinside : K (mapKey s.address))
    (hstays : CofiHeader.Stays K ⟨addr, ins.target, ins.size, ins.opcodeAnalyzer⟩)
    (htype : ins.opcodeAnalyzer ≠ .noCofiType) :
    SweepRel K img limit d₀ d₀' (s.addBranch addr ins) (s'.addBranch addr ins) := by
  have hclosed := h.close hK hnone hstays htype
  have hrest := hclosed.atRest
  constructor
  · exact hclosed.dis
  · exact h.frames.trans hclosed.frames
  · exact h.kept.addBranch
  · exact h.kept'.addBranch
  · exact fun _ => ⟨hrest.idle, hrest.idle', rfl⟩
  · intro hc
    cases hc
  · exact hinside
  · exact haddress
  · rfl
  · rfl
  · exact optionRel_setFirst (optionRel_pair_frame h.first hclosed.frames) hclosed.pair
  · exact fun _ => hclosed.last

lemma sweepEnd {t t' : Sweep} (hc : Closed K s.dis s'.dis t.dis t'.dis)
    (hfirst : t.first = if s.first.isNone then some t.dis.listElement else s.first)
    (hfirst' : t'.first = if s'.first.isNone then some t'.dis.listElement else s'.first)
    (hfailed : t'.failedPage = t.failedPage) : SweepEnd K d₀ d₀' t t' := by
  refine ⟨hc.atRest, h.frames.trans hc.frames, hfailed, ?_, fun _ => hc.last⟩
  rw [hfirst, hfirst']
  exact optionRel_setFirst (optionRel_pair_frame h.first hc.frames) hc.pair

lemma addTransfer (hfailed : s'.failedPage = s.failedPage)
    (hK : K (mapKey addr)) (hnone : s.dis.map (mapKey addr) = none)
    (hstays : CofiHeader.Stays K ⟨addr, 0, ins.size, ins.opcodeAnalyzer⟩)
    (htype : ins.opcodeAnalyzer ≠ .noCofiType) :
    SweepEnd K d₀ d₀' (s.addTransfer addr ins) (s'.addTransfer addr ins) := by
  have hnone' := (h.dis.none_iff _ hK).mp hnone
  unfold Sweep.addTransfer
  rw [h.lastNoCofiAddr]
  by_cases hset : s.lastNoCofiAddr = unset
  · rw [if_neg (not_not.mpr hset), if_neg (not_not.mpr hset)]
    exact h.sweepEnd (h.close hK hnone hstays htype) rfl rfl hfailed
  · have hset' : s'.lastNoCofiAddr ≠ unset := by rwa [h.lastNoCofiAddr]
    have hclosed : Closed K s.dis s'.dis (s.addTransferAfterNoCofi addr ins).dis
        (s'.addTransferAfterNoCofi addr ins).dis := by
      rw [Sweep.dis_addTransferAfterNoCofi ins (h.kept.run hset) hnone,
        Sweep.dis_addTransferAfterNoCofi ins (h.kept'.run hset') hnone', h.lastNoCofiAddr]
      exact h.transfer hset hK hnone rfl hstays htype
    rw [if_pos hset, if_pos hset]
    exact h.sweepEnd hclosed rfl rfl hfailed

end Opened

lemma CofiHeader.stays_branch (hK : K (mapKey addr)) (hnext : K (mapKey (addr + ins.size.toUInt64)))
    (htarget : K (mapKey ins.target)) (htype : ins.opcodeAnalyzer = .conditionalBranch ∨
      ins.opcodeAnalyzer = .unconditionalDirectBranch) :
    CofiHeader.Stays K ⟨addr, ins.target, ins.size, ins.opcodeAnalyzer⟩ := by
  rcases htype with htype | htype
  · simp only [CofiHeader.Stays, htype]
    exact ⟨hK, htarget, hnext⟩
  · simp only [CofiHeader.Stays, htype]
    exact htarget

namespace SweepRel

lemma visit (hcode : ClosedCode K img filter) (hlimit : ∃ i, limit = (filter i).max)
    (h : SweepRel K img limit d₀ d₀' s s') (hins : img s.address = .insn ins)
    (hle : s.address ≤ limit) (page : UInt64) :
    Sum.LiftRel (SweepRel K img limit d₀ d₀') (SweepEnd K d₀ d₀')
      (Sweep.visit { s with address := s.address + ins.size.toUInt64, failedPage := page } s.address ins)
      (Sweep.visit { s' with address := s.address + ins.size.toUInt64, failedPage := page } s.address
        ins) := by
  have hopened := h.openedRel s.address ins (s.address + ins.size.toUInt64) page
  have hfields := Sweep.opened_fields
    { s with address := s.address + ins.size.toUInt64, failedPage := page } s.address ins
  have hfields' := Sweep.opened_fields
    { s' with address := s.address + ins.size.toUInt64, failedPage := page } s.address ins
  have hK := h.inside
  unfold Sweep.visit
  dsimp only
  simp only [Sweep.opened] at hopened hfields hfields'
  generalize (if s.lastNop = true then _ else _ : Sweep) = o at hopened hfields ⊢
  generalize (if s'.lastNop = true then _ else _ : Sweep) = o' at hopened hfields' ⊢
  have haddress : o'.address = o.address := hfields'.1.trans hfields.1.symm
  have hfailed : o'.failedPage = o.failedPage := hfields'.2.trans hfields.2.symm
  cases hget : o.dis.mapGet s.address with
  | some known =>
    obtain ⟨known', hknown', -⟩ := hopened.dis.exists_pair hK hget
    have hget' : o'.dis.mapGet s.address = some known' := hknown'
    rw [hget']
    exact .inr (hopened.linkKnown hfailed hK hget hget')
  | none =>
    have hget' : o'.dis.mapGet s.address = none := (hopened.dis.none_iff _ hK).mp hget
    rw [hget']
    have hnext : (ins.opcodeAnalyzer = .noCofiType ∨ ins.opcodeAnalyzer = .conditionalBranch ∨
        ins.opcodeAnalyzer = .unconditionalDirectBranch) → K (mapKey o.address) := by
      intro htype
      rw [hfields.1]
      exact hcode.next _ _ hK hins htype
    have hbranch : (ins.opcodeAnalyzer = .conditionalBranch ∨
        ins.opcodeAnalyzer = .unconditionalDirectBranch) →
        SweepRel K img limit d₀ d₀' (o.addBranch s.address ins) (o'.addBranch s.address ins) := by
      intro htype
      apply hopened.addBranch hK hget haddress (hnext (.inr htype))
      · exact CofiHeader.stays_branch hK (hcode.next _ _ hK hins (.inr htype))
          (hcode.target _ _ hK hins htype) htype
      · rcases htype with htype | htype <;> simp [htype]
    have htransfer : CofiHeader.Stays K ⟨s.address, 0, ins.size, ins.opcodeAnalyzer⟩ →
        ins.opcodeAnalyzer ≠ .noCofiType →
        SweepEnd K d₀ d₀' (o.addTransfer s.address ins) (o'.addTransfer s.address ins) :=
      hopened.addTransfer hfailed hK hget
    rcases ins.opcodeAnalyzer_cases with htype | htype | htype | htype | htype | htype
    · simp only [htype]
      exact .inl (hbranch (.inl htype))
    · simp only [htype]
      exact .inl (hbranch (.inr htype))
    · simp only [htype] at htransfer ⊢
      exact .inr (htransfer trivial (by decide))
    · simp only [htype] at htransfer ⊢
      exact .inr (htransfer trivial (by decide))
    · simp only [htype] at htransfer ⊢
      exact .inr (htransfer trivial (by decide))
    · simp only [htype]
      obtain ⟨i, hi⟩ := hlimit
      obtain ⟨hinsn, hmax⟩ := hcode.complete _ _ hK hins htype
      refine .inl (hopened.addNoCofi hK hget haddress (hnext (.inl htype)) ?_)
      rw [hfields.1, hi]
      exact ⟨hinsn, hmax i (hi ▸ hle)⟩

lemma step (hcode : ClosedCode K img filter) (hlimit : ∃ i, limit = (filter i).max)
    (h : SweepRel K img limit d₀ d₀' s s') :
    Sum.LiftRel (SweepRel K img limit d₀ d₀') (SweepEnd K d₀ d₀') (s.step img limit)
      (s'.step img limit) := by
  -- a sweep ends without a transfer only where no run is open
  have hend : s.lastNop = false → ∀ page address, SweepEnd K d₀ d₀'
      { s with address := address, failedPage := page }
      { s' with address := address, failedPage := page } := by
    intro hnop page address
    have hdis := h.dis
    rw [hnop, if_neg (by decide)] at hdis
    obtain ⟨hidle, hidle', -⟩ := h.idle hnop
    exact ⟨⟨hdis, hidle, hidle'⟩, h.frames, rfl, h.first, h.last⟩
  have hclosed : ((∀ ins, img s.address ≠ .insn ins) ∨ limit < s.address) → s.lastNop = false := by
    intro hstop
    cases hnop : s.lastNop with
    | false => rfl
    | true =>
      obtain ⟨-, -, ⟨ins, hins⟩, hle⟩ := h.opened hnop
      rcases hstop with hnot | hlt
      · exact absurd hins (hnot ins)
      · exact absurd hle (UInt64.not_le.mpr hlt)
  unfold Sweep.step
  rw [h.address]
  cases hfetch : img s.address with
  | failed page => exact .inr (hend (hclosed (.inl (by simp [hfetch]))) page s.address)
  | invalid => exact .inr (hend (hclosed (.inl (by simp [hfetch]))) unset s.address)
  | insn ins =>
    dsimp only
    by_cases hlt : s.address > limit
    · rw [if_pos hlt, if_pos hlt]
      exact .inr (hend (hclosed (.inr hlt)) unset _)
    · rw [if_neg hlt, if_neg hlt]
      exact h.visit hcode hlimit hfetch (UInt64.not_lt.mp hlt) unset

end SweepRel

/-! ### Objects -/

/-- What `get_obj` leaves in two lists: elements of one key, or the same static object. -/
structure FetchRel (K : UInt32 → Prop) (d₀ d₀' : CofiMap) (f f' : Fetch) : Prop
    extends AtRest K f.dis f'.dis where
  frames : Frames K d₀ d₀' f.dis f'.dis
  failedPage : f'.failedPage = f.failedPage
  obj : Pair K f.dis f'.dis f.obj f'.obj ∨
    (f'.obj = f.obj ∧ (f.obj = .oobObj ∨ f.obj = .pageCacheFailedObj))

lemma analyseAssembly_rel (hcode : ClosedCode K img filter) (h : AtRest K d d') {base : UInt64}
    (hK : K (mapKey base)) (hlimit : ∃ i, limit = (filter i).max) :
    FetchRel K d d' (analyseAssembly img d base limit) (analyseAssembly img d' base limit) := by
  have hkept : ∀ {d : CofiMap}, Sweep.Kept ⟨d, base, false, none, none, unset, 0⟩ :=
    ⟨fun p hp => (by cases hp), fun hne => absurd rfl hne⟩
  have hstart : SweepRel K img limit d d' ⟨d, base, false, none, none, unset, 0⟩
      ⟨d', base, false, none, none, unset, 0⟩ :=
    { h with
      frames := .refl d d', kept := hkept, kept' := hkept, idle := fun _ => ⟨h.idle, h.idle', rfl⟩
      opened := fun hnop => by cases hnop
      inside := hK, address := rfl, lastNop := rfl, lastNoCofiAddr := rfl, first := .none
      last := fun hsome => by cases hsome }
  have hsweep := iterate_rel (fun _ _ => SweepRel.step hcode hlimit) Sweep.rounds hstart
  unfold analyseAssembly
  generalize iterate (Sweep.step img limit) Sweep.rounds ⟨d, base, false, none, none, unset, 0⟩ = o
    at hsweep ⊢
  generalize iterate (Sweep.step img limit) Sweep.rounds ⟨d', base, false, none, none, unset, 0⟩ = o'
    at hsweep ⊢
  cases hsweep with
  | none => exact ⟨h, .refl d d', rfl, .inr ⟨rfl, .inr rfl⟩⟩
  | @some s s' hend =>
    have hfetch : ∀ {r r'}, (Pair K s.dis s'.dis r r' ∨
        (r' = r ∧ (r = .oobObj ∨ r = .pageCacheFailedObj))) →
        FetchRel K d d' ⟨r, s.dis, s.failedPage⟩ ⟨r', s'.dis, s'.failedPage⟩ := fun hobj =>
      ⟨hend.toAtRest, hend.frames, hend.failedPage, hobj⟩
    have hfirst := hend.first
    have hlast := hend.last
    dsimp only
    generalize s.first = f at hfirst hlast ⊢
    generalize s'.first = f' at hfirst ⊢
    cases hfirst with
    | none => exact hfetch (.inr ⟨rfl, .inr rfl⟩)
    | some hpair =>
      rw [hlast rfl]
      simp only [hend.failedPage] at hfetch ⊢
      split
      · exact hfetch (.inr ⟨rfl, .inr rfl⟩)
      · exact hfetch (.inl hpair)

lemma getObj_rel (hcode : ClosedCode K img filter) (h : AtRest K d d') (hK : K (mapKey addr)) :
    FetchRel K d d' (getObj img filter d addr) (getObj img filter d' addr) := by
  unfold getObj
  cases hget : d.mapGet addr with
  | some r =>
    obtain ⟨r', hget', hpair⟩ := h.dis.exists_pair hK hget
    rw [show d'.mapGet addr = some r' from hget']
    exact ⟨h, .refl d d', rfl, .inl hpair⟩
  | none =>
    rw [show d'.mapGet addr = none from (h.dis.none_iff _ hK).mp hget]
    cases hrange : [filter 0, filter 1, filter 2, filter 3].find? (·.contains addr) with
    | none => exact ⟨h, .refl d d', rfl, .inr ⟨rfl, .inl rfl⟩⟩
    | some range =>
      apply analyseAssembly_rel hcode h hK
      have hmem := List.mem_of_find?_eq_some hrange
      simp only [List.mem_cons, List.not_mem_nil, or_false] at hmem
      rcases hmem with rfl | rfl | rfl | rfl
      · exact ⟨0, rfl⟩
      · exact ⟨1, rfl⟩
      · exact ⟨2, rfl⟩
      · exact ⟨3, rfl⟩

end Relation

end Nyx.Pt
