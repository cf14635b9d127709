import Nyx.Pt.Decoder
import Nyx.Pt.ListRelation

/-!
# Isolation of the execution modes

Neither the map of decoded instructions nor the cache of tracelets has the mode in its keys. Calls
in one mode are not disturbed by others if the code of the modes lies apart.
-/

namespace Nyx.Pt

open CofiMap

namespace TraceletTmp

lemma reset_eq {tmp tmp' : TraceletTmp} (h : tmp.Listed) (h' : tmp'.Listed) :
    tmp.resetTraceletTmpCache = tmp'.resetTraceletTmpCache := by
  have hlookup : tmp.resetTraceletTmpCache.lookupBitmap =
      tmp'.resetTraceletTmpCache.lookupBitmap := by
    funext offset
    apply UInt8.toNat_inj.mp
    rw [(@Records.reset 0 tmp h).lookup, (@Records.reset 0 tmp' h').lookup]
  exact congrArg (TraceletTmp.mk _ _ _) hlookup

end TraceletTmp

namespace LoopState

def FromJump (s : LoopState) : Prop :=
  ∃ last, s.lastObj = some last ∧ (s.dis.heap last).cofi.type = .unconditionalDirectBranch

def Fits (s : LoopState) : Prop :=
  match s.label with
  | .conditionalBranch => s.header.type = .conditionalBranch
  | .unconditionalBranch => s.header.type = .unconditionalDirectBranch ∧
      s.dispatchType = .unconditionalDirectBranch
  | .noCofi => s.header.type = .noCofiType
  | .disassembleT => s.FromJump
  | .branchCheckT => s.header.type = .disassemblyPending → s.FromJump
  | .disassembleNt => False
  | .branchCheckNt => s.header.type ≠ .disassemblyPending
  | _ => True

lemma fits_dispatchT {s : LoopState} (h : s.header.type ≠ .disassemblyPending) :
    s.dispatchT.Fits := by
  have hheader : s.dispatchT.header = s.header := rfl
  unfold Fits
  rw [hheader]
  cases htype : s.header.type with
  | disassemblyPending => exact absurd htype h
  | _ => simp [dispatchT, htype, dispatchTableT]

lemma fits_dispatchNt {s : LoopState} (h : s.header.type ≠ .disassemblyPending) :
    s.dispatchNt.Fits := by
  have hheader : s.dispatchNt.header = s.header := rfl
  unfold Fits
  rw [hheader]
  cases htype : s.header.type with
  | disassemblyPending => exact absurd htype h
  | _ => simp [dispatchNt, htype, dispatchTableNt]

lemma fits_dispatch {s : LoopState} (h : s.header.type = .disassemblyPending → s.FromJump) :
    (s.dispatch s.header.type).Fits := by
  have hheader : (s.dispatch s.header.type).header = s.header := rfl
  unfold Fits
  rw [hheader]
  cases htype : s.header.type with
  | disassemblyPending => exact h htype
  | _ => simp [dispatch, dispatchTable]

end LoopState

lemma CofiMap.Idle.setCofiTargetPtr {d : CofiMap} {q target r : Ref} (h : d.Idle r) :
    (d.setCofiTargetPtr q target).Idle r := by
  intro k hk
  rw [cofi_setCofiTargetPtr]
  exact h k hk

lemma exists_pair_of_some {P : Ref → Ref → Prop} {o o' : Option Ref} (h : Option.Rel P o o') {r : Ref}
    (hr : o = some r) : ∃ r', o' = some r' ∧ P r r' := by
  subst hr
  cases h with
  | some hp => exact ⟨_, rfl, hp⟩

section Loop

variable {K : UInt32 → Prop} {img : Image} {filter : AddrFilter} (size : UInt32)

/-- Related loops, apart from the label. -/
structure LoopData (K : UInt32 → Prop) (d₀ : CofiMap) (s s' : LoopState) : Prop
    extends AtRest K s.dis s'.dis where
  frame : Frame K d₀ s.dis
  listed : s.tmp.Listed
  obj : Same K s.dis s'.dis s.obj s'.obj
  lastObj : Option.Rel (Pair K s.dis s'.dis) s.lastObj s'.lastObj
  tmp : s'.tmp = s.tmp
  tnt : s'.tnt = s.tnt
  entryPoint : s'.entryPoint = s.entryPoint
  failedPage : s'.failedPage = s.failedPage
  dispatchType : s'.dispatchType = s.dispatchType

/-- Related loops. -/
structure LoopRel (K : UInt32 → Prop) (d₀ : CofiMap) (s s' : LoopState) : Prop
    extends LoopData K d₀ s s' where
  label : s'.label = s.label
  fits : s.Fits

/-- Related exits. -/
structure ExitRel (K : UInt32 → Prop) (d₀ : CofiMap) (e e' : LoopExit) : Prop
    extends AtRest K e.dis e'.dis where
  frame : Frame K d₀ e.dis
  listed : e.tmp.Listed
  result : e'.result = e.result
  tmp : e'.tmp = e.tmp
  tnt : e'.tnt = e.tnt
  entryPoint : e'.entryPoint = e.entryPoint
  failedPage : e'.failedPage = e.failedPage
  tracelet : e'.tracelet = e.tracelet
  success : e.result = .success → K (mapKey e.entryPoint)
  contExec : ∀ t, e.tracelet = some t → t.contExec = true → K (mapKey e.entryPoint)

lemma Rel.pair_ne_pending {d d' : CofiMap} (h : Rel K none d d') {r r' : Ref}
    (hp : Pair K d d' r r') : (d.heap r).cofi.type ≠ .disassemblyPending := by
  intro htype
  have hstays := (h.node hp).stays
  simp only [CofiHeader.Stays, htype] at hstays
  exact hstays

namespace FetchRel

variable {d₀ d₀' : CofiMap} {f f' : Fetch}

lemma same (h : FetchRel K d₀ d₀' f f') : Same K f.dis f'.dis f.obj f'.obj := by
  rcases h.obj with hpair | ⟨heq, hstatic⟩
  · exact .inr hpair
  · refine .inl ⟨?_, heq⟩
    rcases hstatic with hobj | hobj <;> simp [hobj]

lemma type_ne_pending (h : FetchRel K d₀ d₀' f f') :
    (f.dis.heap f.obj).cofi.type ≠ .disassemblyPending := by
  rcases h.obj with hpair | ⟨-, hobj | hobj⟩
  · exact h.dis.pair_ne_pending hpair
  · rw [hobj, h.dis.left.static _ (by simp)]
    decide
  · rw [hobj, h.dis.left.static _ (by simp)]
    decide

end FetchRel

namespace LoopData

variable {d₀ : CofiMap} {s s' : LoopState}

variable (h : LoopData K d₀ s s')
include h

lemma header_eq : s'.header = s.header := h.dis.header_eq h.obj

lemma dispatchT (htype : s.header.type ≠ .disassemblyPending) :
    LoopRel K d₀ s.dispatchT s'.dispatchT where
  toLoopData := { h with }
  label := by simp only [LoopState.dispatchT, h.header_eq]
  fits := LoopState.fits_dispatchT htype

lemma dispatchNt (htype : s.header.type ≠ .disassemblyPending) :
    LoopRel K d₀ s.dispatchNt s'.dispatchNt where
  toLoopData := { h with }
  label := by simp only [LoopState.dispatchNt, h.header_eq]
  fits := LoopState.fits_dispatchNt htype

lemma dispatch {type : CofiType} (hfits : (s.dispatch type).Fits) :
    LoopRel K d₀ (s.dispatch type) (s'.dispatch type) where
  toLoopData := { h with dispatchType := rfl }
  label := rfl
  fits := hfits

lemma pair_of_type (hlive : s.header.type.Live) : Pair K s.dis s'.dis s.obj s'.obj := by
  rcases h.obj with ⟨hstatic, -⟩ | hpair
  · have hheader : s.header = (CofiMap.new.heap s.obj).cofi := by
      rw [LoopState.header, h.dis.left.static _ hstatic]
    rw [hheader] at hlive
    cases hobj : s.obj with
    | element n => exact absurd hobj (hstatic n)
    | _ =>
      rw [hobj] at hlive
      exact hlive.elim
  · exact hpair

lemma fetch (hcode : ClosedCode K img filter) {addr : UInt64} (hK : K (mapKey addr)) :
    LoopData K d₀ (s.fetch img filter addr) (s'.fetch img filter addr) ∧
      (s.fetch img filter addr).header.type ≠ .disassemblyPending ∧
      Frames K s.dis s'.dis (s.fetch img filter addr).dis (s'.fetch img filter addr).dis := by
  have hfetch := getObj_rel hcode h.toAtRest hK
  exact ⟨{ h with
    toAtRest := hfetch.toAtRest
    frame := h.frame.trans hfetch.frames.left
    obj := hfetch.same
    lastObj := optionRel_pair_frame h.lastObj hfetch.frames
    failedPage := hfetch.failedPage }, hfetch.type_ne_pending, hfetch.frames⟩

lemma leave {result : DisasResult} {tracelet : Option Tracelet}
    (hsuccess : result = .success → K (mapKey s.entryPoint))
    (hcont : ∀ t, tracelet = some t → t.contExec → K (mapKey s.entryPoint)) :
    Sum.LiftRel (LoopRel K d₀) (Option.Rel (ExitRel K d₀)) (s.leave result tracelet)
      (s'.leave result tracelet) :=
  .inr (.some { h with result := rfl, tracelet := rfl, success := hsuccess, contExec := hcont })

lemma finish {result : DisasResult} (hresult : result ≠ .success) :
    Sum.LiftRel (LoopRel K d₀) (Option.Rel (ExitRel K d₀)) (s.finish result) (s'.finish result) := by
  unfold LoopState.finish
  rw [h.tmp]
  apply h.leave
  · exact fun hc => absurd hc hresult
  · intro t ht hcont
    cases ht
    cases hcont

lemma follow (hcode : ClosedCode K img filter) (hpair : Pair K s.dis s'.dis s.obj s'.obj)
    (tnt : TntCache) {dst : UInt64} (hK : K (mapKey dst)) :
    Option.Rel (fun t t' => LoopData K d₀ t t' ∧ t.header.type ≠ .disassemblyPending)
      (s.follow img filter size tnt dst) (s'.follow img filter size tnt dst) := by
  unfold LoopState.follow
  rw [h.tmp, h.header_eq]
  cases hadd : s.tmp.addResultTraceletCache size s.header.insAddr dst with
  | none => exact .none
  | some tmp =>
    have hnext : LoopData K d₀ { s with tmp := tmp, tnt := tnt, lastObj := some s.obj }
        { s' with tmp := tmp, tnt := tnt, lastObj := some s'.obj } :=
      { h with listed := h.listed.add hadd, lastObj := .some hpair, tmp := rfl, tnt := rfl }
    obtain ⟨hfetch, htype, -⟩ := hnext.fetch hcode hK
    exact .some ⟨hfetch, htype⟩

lemma doConditionalBranch (hcode : ClosedCode K img filter)
    (htype : s.header.type = .conditionalBranch) :
    Sum.LiftRel (LoopRel K d₀) (Option.Rel (ExitRel K d₀)) (s.doConditionalBranch img filter size)
      (s'.doConditionalBranch img filter size) := by
  have hpair := h.pair_of_type (by rw [htype]; trivial)
  have hstays : s.header.Stays K := (h.dis.node hpair).stays
  simp only [CofiHeader.Stays, htype] at hstays
  obtain ⟨hins, htarget, hnext⟩ := hstays
  unfold LoopState.doConditionalBranch
  rw [h.tmp, h.tnt, h.header_eq]
  split
  · have hleave : LoopData K d₀ { s with entryPoint := s.header.insAddr }
        { s' with tmp := s.tmp, tnt := s.tnt, entryPoint := s.header.insAddr } :=
      { h with tmp := rfl, tnt := rfl, entryPoint := rfl }
    exact hleave.leave (fun _ => hins) (fun _ _ _ => hins)
  · split
    · next tnt htnt =>
      have hfinish : LoopData K d₀ { s with tnt := tnt } { s' with tmp := s.tmp, tnt := tnt } :=
        { h with tmp := rfl, tnt := rfl }
      exact hfinish.finish (by decide)
    · next tnt htnt =>
      have hfollow := h.follow size hcode hpair tnt htarget
      generalize s.follow img filter size tnt s.header.targetAddr = o at hfollow ⊢
      generalize s'.follow img filter size tnt s.header.targetAddr = o' at hfollow ⊢
      cases hfollow with
      | none => exact .inr .none
      | some hdata => exact .inl (hdata.1.dispatchT hdata.2)
    · next tnt htnt =>
      have hfollow := h.follow size hcode hpair tnt hnext
      generalize s.follow img filter size tnt (s.header.insAddr + s.header.insSize.toUInt64) = o
        at hfollow ⊢
      generalize s'.follow img filter size tnt (s.header.insAddr + s.header.insSize.toUInt64) = o'
        at hfollow ⊢
      cases hfollow with
      | none => exact .inr .none
      | some hdata => exact .inl (hdata.1.dispatchNt hdata.2)

lemma branchCheck (limit : UInt64) (start : CofiHeader → UInt64)
    (hpending : s.header.type = .disassemblyPending → s.FromJump) :
    Sum.LiftRel (LoopRel K d₀) (Option.Rel (ExitRel K d₀)) (s.branchCheck limit start)
      (s'.branchCheck limit start) := by
  have hlast := h.lastObj
  unfold LoopState.branchCheck
  rw [h.header_eq, h.tnt, h.entryPoint]
  generalize s.lastObj = o at hlast ⊢
  generalize s'.lastObj = o' at hlast ⊢
  cases hlast with
  | none => exact .inr .none
  | some hpair =>
    dsimp only
    rw [(h.dis.node hpair).cofi]
    refine .inl (h.dispatch ?_)
    split
    · trivial
    · exact LoopState.fits_dispatch hpending

lemma disassembleT (hcode : ClosedCode K img filter) {last last' : Ref}
    (hpair : Pair K s.dis s'.dis last last')
    (htype : (s.dis.heap last).cofi.type = .unconditionalDirectBranch) {addr : UInt64}
    (haddr : addr = (s.dis.heap last).cofi.targetAddr) : let t := s.fetch img filter addr
    let t' := s'.fetch img filter addr
    LoopRel K d₀ (LoopState.dispatchT { t with dis := t.dis.setCofiTargetPtr last t.obj })
      (LoopState.dispatchT { t' with dis := t'.dis.setCofiTargetPtr last' t'.obj }) := by
  have hstays := (h.dis.node hpair).stays
  simp only [CofiHeader.Stays, htype] at hstays
  obtain ⟨hfetch, hpending, hframes⟩ := h.fetch hcode (haddr ▸ hstays)
  obtain ⟨hrel, hset⟩ := hfetch.dis.setCofiTargetPtr (hpair.frame hframes) hfetch.obj
  apply LoopData.dispatchT
  · exact { hfetch with
      dis := hrel
      frame := hfetch.frame.trans hset.left
      idle := hfetch.idle.setCofiTargetPtr
      idle' := hfetch.idle'.setCofiTargetPtr
      obj := hfetch.obj.frame hset
      lastObj := optionRel_pair_frame hfetch.lastObj hset }
  · rw [LoopState.header, cofi_setCofiTargetPtr]
    exact hpending

end LoopData

namespace LoopRel

variable {d₀ : CofiMap} {s s' : LoopState}

lemma step (hcode : ClosedCode K img filter) (h : LoopRel K d₀ s s') (limit : UInt64) :
    Sum.LiftRel (LoopRel K d₀) (Option.Rel (ExitRel K d₀)) (s.step img filter size limit)
      (s'.step img filter size limit) := by
  have hfits := h.fits
  have hdata := h.toLoopData
  unfold LoopState.Fits at hfits
  unfold LoopState.step
  rw [h.label]
  cases hlabel : s.label with
  | conditionalBranch =>
    simp only [hlabel] at hfits
    exact hdata.doConditionalBranch size hcode hfits
  | unconditionalBranch =>
    simp only [hlabel] at hfits
    obtain ⟨htype, hdispatch⟩ := hfits
    have hpair := hdata.pair_of_type (by rw [htype]; trivial)
    obtain ⟨t, t', ht, ht', hsame⟩ := (h.dis.node hpair).target
    simp only [ht, ht', h.entryPoint, h.tnt, h.dispatchType, hdispatch]
    refine .inl { hdata with
      obj := hsame, lastObj := .some hpair, tnt := rfl, entryPoint := rfl, dispatchType := rfl,
      label := rfl, fits := ?_ }
    split
    · trivial
    · exact fun _ => ⟨s.obj, rfl, htype⟩
  | nearRet => exact hdata.finish (by decide)
  | farTransfers => exact hdata.finish (by decide)
  | noCofi =>
    simp only [hlabel] at hfits
    have hpair := hdata.pair_of_type (by rw [hfits]; trivial)
    rcases (h.dis.node hpair).next hfits with hopen | ⟨n, n', hn, hn', hnext⟩
    · cases hopen
    · simp only [hn, hn']
      have hmove : LoopData K d₀ { s with lastObj := some s.obj, obj := n }
          { s' with lastObj := some s'.obj, obj := n' } :=
        { hdata with obj := .inr hnext, lastObj := .some hpair }
      exact .inl (hmove.dispatchNt (h.dis.pair_ne_pending hnext))
  | disassembleT =>
    simp only [hlabel] at hfits
    obtain ⟨last, hobj, htype⟩ := hfits
    obtain ⟨last', hobj', hpair⟩ := exists_pair_of_some h.lastObj hobj
    simp only [hobj, hobj', (h.dis.node hpair).cofi]
    exact .inl (hdata.disassembleT hcode hpair htype rfl)
  | branchCheckT =>
    simp only [hlabel] at hfits
    exact hdata.branchCheck limit _ hfits
  | disassembleNt =>
    simp only [hlabel] at hfits
  | branchCheckNt =>
    simp only [hlabel] at hfits
    exact hdata.branchCheck limit _ fun hc => absurd hc hfits
  | outOfBounds => exact hdata.finish (by decide)
  | infiniteLoop => exact hdata.finish (by decide)
  | pageCacheFailed =>
    exact hdata.leave (fun hc => by cases hc) (fun t ht => by cases ht)

end LoopRel

/-! ### Calls -/

/-- The disassemblers agree on `K`. -/
structure DisRel (K : UInt32 → Prop) (d d' : Disassembler) : Prop
    extends AtRest K d.dis d'.dis where
  lookup : ∀ key : TraceCacheKey, K (mapKey key.entry) → d'.lookup key = d.lookup key
  contExec : ∀ (key : TraceCacheKey) t, K (mapKey key.entry) → d.lookup key = some t →
    t.contExec = true → K (mapKey t.nextEntryAddress)
  listed : d.tmp.Listed
  listed' : d'.tmp.Listed

/-- Nothing was changed outside of `K`. -/
structure DisFrame (K : UInt32 → Prop) (d e : Disassembler) : Prop where
  dis : Frame K d.dis e.dis
  lookup : ∀ key : TraceCacheKey, ¬K (mapKey key.entry) → e.lookup key = d.lookup key

/-- Related rounds. -/
structure TraceRel (K : UInt32 → Prop) (d₀ : Disassembler) (s s' : TraceState) : Prop where
  self : DisRel K s.self s'.self
  frame : DisFrame K d₀ s.self
  inside : K (mapKey s.entryPoint)
  entryPoint : s'.entryPoint = s.entryPoint
  tnt : s'.tnt = s.tnt
  bitmap : s'.bitmap = s.bitmap

/-- Related results. -/
structure ReturnRel (K : UInt32 → Prop) (d₀ : Disassembler) (o o' : DisasResult × TraceState) :
    Prop where
  result : o'.1 = o.1
  self : DisRel K o.2.self o'.2.self
  frame : DisFrame K d₀ o.2.self
  tnt : o'.2.tnt = o.2.tnt
  bitmap : o'.2.bitmap = o.2.bitmap

namespace DisRel

variable {d d' : Disassembler}

lemma traceCacheAdd (h : DisRel K d d') {key : TraceCacheKey} (hK : K (mapKey key.entry))
    {t : Tracelet} (ht : t.contExec → K (mapKey t.nextEntryAddress)) :
    DisRel K (d.traceCacheAdd key t) (d'.traceCacheAdd key t) ∧
      DisFrame K d (d.traceCacheAdd key t) := by
  unfold Disassembler.traceCacheAdd
  rw [h.lookup key hK]
  split
  · refine ⟨{ h with lookup := ?_, contExec := ?_ }, ⟨.refl d.dis, ?_⟩⟩
    · intro key' hK'
      by_cases heq : key' = key
      · simp [heq]
      · simp [heq, h.lookup key' hK']
    · intro key' t' hK' ht' hcont
      by_cases heq : key' = key
      · have htt : t = t' := by simpa [heq] using ht'
        exact htt ▸ ht (htt ▸ hcont)
      · have hold : d.lookup key' = some t' := by simpa [heq] using ht'
        exact h.contExec key' t' hK' hold hcont
    · intro key' hK'
      have hne : key' ≠ key := by
        intro heq
        exact hK' (heq ▸ hK)
      simp [hne]
  · exact ⟨h, ⟨.refl d.dis, fun _ _ => rfl⟩⟩

end DisRel

lemma DisFrame.trans {d e f : Disassembler} (h : DisFrame K d e) (h' : DisFrame K e f) :
    DisFrame K d f :=
  ⟨h.dis.trans h'.dis, fun key hK => (h'.lookup key hK).trans (h.lookup key hK)⟩

namespace TraceRel

variable {d₀ : Disassembler} {s s' : TraceState}

lemma startLoop (hcode : ClosedCode K img filter) (h : TraceRel K d₀ s s') :
    LoopRel K s.self.dis (s.startLoop img filter) (s'.startLoop img filter) := by
  have hfetch := getObj_rel hcode h.self.toAtRest h.inside
  have hreset := TraceletTmp.reset_eq h.self.listed' h.self.listed
  have hlisted := (@Records.reset 0 s.self.tmp h.self.listed).listed
  unfold TraceState.startLoop
  dsimp only
  rw [h.entryPoint, h.tnt, hreset, hfetch.dis.header_eq hfetch.same]
  apply LoopData.dispatch
  · exact { hfetch with
      frame := hfetch.frames.left, listed := hlisted, obj := hfetch.same, lastObj := .none, tmp := rfl, tnt := rfl,
      entryPoint := rfl, dispatchType := rfl }
  · exact LoopState.fits_dispatch fun hc => absurd hc hfetch.type_ne_pending

lemma afterLoop (h : TraceRel K d₀ s s') {e e' : LoopExit} (he : ExitRel K s.self.dis e e') :
    DisRel K (s.afterLoop e).self (s'.afterLoop e').self ∧ DisFrame K d₀ (s.afterLoop e).self := by
  have hlisted' : e'.tmp.Listed := by
    rw [he.tmp]
    exact he.listed
  exact ⟨⟨he.toAtRest, h.self.lookup, h.self.contExec, he.listed, hlisted'⟩, ⟨h.frame.dis.trans he.frame, h.frame.lookup⟩⟩

lemma step (hcode : ClosedCode K img filter) (h : TraceRel K d₀ s s') (limit : UInt64) (fuel : ℕ) :
    Sum.LiftRel (TraceRel K d₀) (Option.Rel (ReturnRel K d₀))
      (s.step img filter size limit fuel) (s'.step img filter size limit fuel) := by
  have hK : K (mapKey (TraceCacheKey.mk s.tnt.getTntHash s.entryPoint limit).entry) := h.inside
  have hstart := h.startLoop hcode
  unfold TraceState.step
  dsimp only
  rw [h.tnt, h.entryPoint, h.self.lookup _ hK]
  cases hcache : s.self.lookup ⟨s.tnt.getTntHash, s.entryPoint, limit⟩ with
  | some t =>
    dsimp only
    cases hcont : t.contExec with
    | true =>
      exact .inl ⟨h.self, h.frame, h.self.contExec _ t hK hcache hcont, rfl,
        by simp only [TraceState.applyTracelet, Tracelet.applyTraceCacheToBitmap, h.tnt],
        by simp only [TraceState.applyTracelet, Tracelet.applyTraceCacheToBitmap, h.bitmap]⟩
    | false =>
      exact .inr (.some ⟨rfl, h.self, h.frame,
        by simp only [TraceState.applyTracelet, Tracelet.applyTraceCacheToBitmap, h.tnt],
        by simp only [TraceState.applyTracelet, Tracelet.applyTraceCacheToBitmap, h.bitmap]⟩)
  | none =>
    have hloop := iterate_rel (fun _ _ hl => LoopRel.step size hcode hl limit) fuel hstart
    generalize iterate (LoopState.step img filter size limit) fuel (s.startLoop img filter) = o
      at hloop ⊢
    generalize iterate (LoopState.step img filter size limit) fuel (s'.startLoop img filter) = o'
      at hloop ⊢
    cases hloop with
    | none => exact .inr .none
    | some hexit =>
      cases hexit with
      | none => exact .inr .none
      | @some e e' he =>
        obtain ⟨hself, hframe⟩ := h.afterLoop he
        dsimp only
        rw [he.result, he.tracelet]
        split
        · exact .inr (.some ⟨rfl, hself, hframe, he.tnt, h.bitmap⟩)
        · cases ht : e.tracelet with
          | none => exact .inr .none
          | some t =>
            dsimp only
            rw [he.entryPoint]
            obtain ⟨hadd, haddFrame⟩ := hself.traceCacheAdd
              (t := t.setNextEntryAddres e.entryPoint) hK (he.contExec t ht)
            have hbitmap : (t.setNextEntryAddres e.entryPoint).bitmapResults.foldl
                Tracelet.applyResult s'.bitmap = (t.setNextEntryAddres e.entryPoint).bitmapResults.foldl
                Tracelet.applyResult s.bitmap := by rw [h.bitmap]
            split
            · next hsuccess =>
              exact .inl ⟨hadd, hframe.trans haddFrame, he.success hsuccess, he.entryPoint, he.tnt,
                hbitmap⟩
            · exact .inr (.some ⟨rfl, hadd, hframe.trans haddFrame, he.tnt, hbitmap⟩)

end TraceRel

lemma traceDisassembler_rel (hcode : ClosedCode K img filter) {d d' : Disassembler}
    (h : DisRel K d d') {entryPoint : UInt64} (hK : K (mapKey entryPoint)) (limit : UInt64)
    (tnt : TntCache) (bitmap : FuzzBitmap) (fuel : ℕ) :
    Option.Rel (ReturnRel K d) (traceDisassembler img filter size fuel d entryPoint limit tnt bitmap)
      (traceDisassembler img filter size fuel d' entryPoint limit tnt bitmap) := by
  have hstart : TraceRel K d ⟨d, entryPoint, tnt, bitmap, 0⟩ ⟨d', entryPoint, tnt, bitmap, 0⟩ :=
    ⟨h, ⟨.refl d.dis, fun _ _ => rfl⟩, hK, rfl, rfl, rfl⟩
  have hloop := iterate_rel (fun _ _ hs => TraceRel.step size hcode hs limit fuel) fuel
    hstart
  unfold traceDisassembler
  generalize iterate (TraceState.step img filter size limit fuel) fuel
    ⟨d, entryPoint, tnt, bitmap, 0⟩ = o at hloop ⊢
  generalize iterate (TraceState.step img filter size limit fuel) fuel
    ⟨d', entryPoint, tnt, bitmap, 0⟩ = o' at hloop ⊢
  cases hloop with
  | none => exact .none
  | some hreturn => exact hreturn

end Loop

/-! ### Runs -/

namespace DisRel

variable {K : UInt32 → Prop} {d d' : Disassembler}

lemma new (K : UInt32 → Prop) : DisRel K Disassembler.new Disassembler.new := by
  have hnone : ∀ k r, CofiMap.new.map k ≠ some r := fun k r hr => by cases hr
  have hpair : ∀ {r r'}, ¬Pair K CofiMap.new CofiMap.new r r' := fun ⟨k, _, hr, _⟩ => hnone k _ hr
  have hown : Own K CofiMap.new :=
    ⟨⟨fun _ _ => rfl, fun k r hr => absurd hr (hnone k r), ⟨0, Nat.one_pos, rfl⟩⟩,
      fun k r _ hr => absurd hr (hnone k r)⟩
  have hidle : CofiMap.new.Idle CofiMap.new.listElement := fun k hk => absurd hk (hnone k _)
  have hlisted : TraceletTmp.new.Listed := fun _ _ => rfl
  exact ⟨⟨⟨hown, hown, fun _ _ => Iff.rfl, fun h => absurd h hpair, fun h => absurd h hpair⟩, hidle,
    hidle⟩, fun _ _ => rfl, (fun key t _ ht => by cases ht), hlisted, hlisted⟩

lemma symm (h : DisRel K d d') : DisRel K d' d where
  dis := h.dis.symm
  idle := h.idle'
  idle' := h.idle
  lookup key hK := (h.lookup key hK).symm
  contExec key t hK ht := h.contExec key t hK ((h.lookup key hK).symm.trans ht)
  listed := h.listed'
  listed' := h.listed

lemma frame_left (h : DisRel K d d') {L : UInt32 → Prop} {e : Disassembler} (hf : DisFrame L d e)
    (hdisjoint : ∀ k, K k → ¬L k) (he : DisRel L e e) : DisRel K e d' where
  dis := h.dis.frame_left hf.dis hdisjoint he.dis.left
  idle := he.idle
  idle' := h.idle'
  lookup key hK := (h.lookup key hK).trans (hf.lookup key (hdisjoint _ hK)).symm
  contExec key t hK ht :=
    h.contExec key t hK ((hf.lookup key (hdisjoint _ hK)).symm.trans ht)
  listed := he.listed
  listed' := h.listed'

end DisRel

/-- The arguments of a call. -/
structure TraceCall where
  mode : DisassemblerMode
  entryPoint : UInt64
  limit : UInt64
  tnt : TntCache
  bitmap : FuzzBitmap

section Runs

variable (imgs : DisassemblerMode → Image) (filter : AddrFilter) (size : UInt32) (fuel : ℕ)

def TraceCall.run (c : TraceCall) (d : Disassembler) : Option (DisasResult × TraceState) :=
  traceDisassembler (imgs c.mode) filter size fuel d c.entryPoint c.limit c.tnt c.bitmap

def runCalls : Disassembler → List TraceCall → Option Disassembler
  | d, [] => some d
  | d, c :: calls =>
    match c.run imgs filter size fuel d with
    | some o => runCalls o.2.self calls
    | none => none

def observed (o : DisasResult × TraceState) : DisasResult × FuzzBitmap × TntCache :=
  (o.1, o.2.bitmap, o.2.tnt)

/-- The code of each mode is at keys of its own, and control stays there. -/
structure Separated (K : DisassemblerMode → UInt32 → Prop) : Prop where
  code : ∀ m, ClosedCode (K m) (imgs m) filter
  disjoint : ∀ m m' k, K m k → K m' k → m = m'

variable {imgs filter} {K : DisassemblerMode → UInt32 → Prop}

/-- `d` has seen all calls, `d'` the ones in mode `m`. -/
structure History (K : DisassemblerMode → UInt32 → Prop) (m : DisassemblerMode)
    (d d' : Disassembler) : Prop where
  isolated : DisRel (K m) d d'
  modes : ∀ m', DisRel (K m') d d

namespace History

variable {m : DisassemblerMode} {d d' : Disassembler}

variable (hsep : Separated imgs filter K) (h : History K m d d')
include hsep h

lemma modes_call {c : TraceCall} (hc : K c.mode (mapKey c.entryPoint))
    {o : DisasResult × TraceState} (ho : c.run imgs filter size fuel d = some o) :
    DisFrame (K c.mode) d o.2.self ∧ ∀ m', DisRel (K m') o.2.self o.2.self := by
  have hreturn := traceDisassembler_rel size (hsep.code c.mode) (h.modes c.mode) hc c.limit c.tnt
    c.bitmap fuel
  have hrun : traceDisassembler (imgs c.mode) filter size fuel d c.entryPoint c.limit c.tnt c.bitmap =
      some o := ho
  rw [hrun] at hreturn
  cases hreturn with
  | some hreturn =>
    refine ⟨hreturn.frame, fun m' => ?_⟩
    by_cases hm : m' = c.mode
    · rw [hm]
      exact hreturn.self
    · have hdisjoint : ∀ k, K m' k → ¬K c.mode k := fun k hk hk' => hm (hsep.disjoint _ _ k hk hk')
      have hleft := (h.modes m').frame_left hreturn.frame hdisjoint hreturn.self
      exact hleft.symm.frame_left hreturn.frame hdisjoint hreturn.self

lemma call {c : TraceCall} (hm : c.mode = m) (hc : K c.mode (mapKey c.entryPoint)) :
    Option.Rel (fun o o' => History K m o.2.self o'.2.self ∧ observed o = observed o')
      (c.run imgs filter size fuel d) (c.run imgs filter size fuel d') := by
  have hreturn : Option.Rel (ReturnRel (K c.mode) d) (c.run imgs filter size fuel d)
      (c.run imgs filter size fuel d') :=
    traceDisassembler_rel size (hsep.code c.mode) (hm ▸ h.isolated) hc c.limit c.tnt c.bitmap fuel
  have hmodes := fun o => h.modes_call size fuel hsep hc (o := o)
  generalize c.run imgs filter size fuel d = r at hreturn hmodes ⊢
  generalize c.run imgs filter size fuel d' = r' at hreturn ⊢
  cases hreturn with
  | none => exact .none
  | some hrel =>
    refine .some ⟨⟨hm ▸ hrel.self, (hmodes _ rfl).2⟩, ?_⟩
    simp only [observed, hrel.result, hrel.bitmap, hrel.tnt]

lemma call_other {c : TraceCall}
    (hm : c.mode ≠ m) (hc : K c.mode (mapKey c.entryPoint)) {o : DisasResult × TraceState}
    (ho : c.run imgs filter size fuel d = some o) : History K m o.2.self d' := by
  obtain ⟨hframe, hmodes⟩ := h.modes_call size fuel hsep hc ho
  refine ⟨h.isolated.frame_left hframe ?_ (hmodes c.mode), hmodes⟩
  exact fun k hk hk' => hm (hsep.disjoint _ _ k hk' hk)

lemma calls {calls : List TraceCall} (hcalls : ∀ c ∈ calls, K c.mode (mapKey c.entryPoint))
    {e : Disassembler} (hrun : runCalls imgs filter size fuel d calls = some e) :
    ∃ e', runCalls imgs filter size fuel d' (calls.filter (·.mode = m)) = some e' ∧
      History K m e e' := by
  induction calls generalizing d d' with
  | nil =>
    cases hrun
    exact ⟨d', rfl, h⟩
  | cons c calls ih =>
    have hc := hcalls c List.mem_cons_self
    have hrest : ∀ c ∈ calls, K c.mode (mapKey c.entryPoint) :=
      fun c hmem => hcalls c (List.mem_cons_of_mem _ hmem)
    unfold runCalls at hrun
    cases ho : c.run imgs filter size fuel d with
    | none =>
      rw [ho] at hrun
      cases hrun
    | some o =>
      rw [ho] at hrun
      by_cases hm : c.mode = m
      · have hcall := h.call size fuel hsep hm hc
        rw [ho] at hcall
        rw [List.filter_cons_of_pos (by simpa using hm)]
        unfold runCalls
        generalize c.run imgs filter size fuel d' = r' at hcall ⊢
        cases hcall with
        | some hnext => exact ih hnext.1 hrest hrun
      · rw [List.filter_cons_of_neg (by simpa using hm)]
        exact ih (h.call_other size fuel hsep hm hc ho) hrest hrun

end History

/-- Calls in other modes do not change what a call in one mode does, as long as the code of the modes
is separated. -/
theorem trace_mode_isolated (hsep : Separated imgs filter K) {calls : List TraceCall}
    (hcalls : ∀ c ∈ calls, K c.mode (mapKey c.entryPoint)) {c : TraceCall}
    (hc : K c.mode (mapKey c.entryPoint)) {d : Disassembler}
    (hrun : runCalls imgs filter size fuel Disassembler.new calls = some d) :
    ∃ d', runCalls imgs filter size fuel Disassembler.new (calls.filter (·.mode = c.mode)) = some d' ∧
      (c.run imgs filter size fuel d).map observed = (c.run imgs filter size fuel d').map observed := by
  have hstart : History K c.mode Disassembler.new Disassembler.new := ⟨.new _, fun _ => .new _⟩
  obtain ⟨d', hrun', h⟩ := hstart.calls size fuel hsep hcalls hrun
  refine ⟨d', hrun', ?_⟩
  have hcall := h.call size fuel hsep rfl hc
  generalize c.run imgs filter size fuel d = r at hcall ⊢
  generalize c.run imgs filter size fuel d' = r' at hcall ⊢
  cases hcall with
  | none => rfl
  | some hboth => exact congrArg some hboth.2

def loopCode (base : UInt64) (target : List Char) : Image := fun a =>
  if a = base then .insn ⟨.other 0, 0, 0x90, 1, []⟩
  else if a = base + 1 then .insn ⟨.je, 0, 0x74, 2, target⟩
  else if a = base + 3 then .insn ⟨.ret, 0, 0xC3, 1, []⟩
  else .invalid

def loopKeys (base : UInt64) (k : UInt32) : Prop :=
  k = mapKey base ∨ k = mapKey (base + 1) ∨ k = mapKey (base + 3)

def modeBase : DisassemblerMode → UInt64
  | .mode16 => 0x1000
  | .mode32 => 0x2000
  | .mode64 => 0x3000

def modeTarget : DisassemblerMode → List Char
  | .mode16 => ['0', 'x', '1', '0', '0', '0']
  | .mode32 => ['0', 'x', '2', '0', '0', '0']
  | .mode64 => ['0', 'x', '3', '0', '0', '0']

def loopImages (m : DisassemblerMode) : Image := loopCode (modeBase m) (modeTarget m)

def loopFilter : AddrFilter := fun i => if i = 0 then ⟨0x1000, 0x4000⟩ else ⟨0, 0⟩

lemma loopCode_cases {base a : UInt64} {target : List Char} {ins : CsInsn}
    (h : loopCode base target a = .insn ins) :
    (a = base ∧ ins = ⟨.other 0, 0, 0x90, 1, []⟩) ∨ (a = base + 1 ∧ ins = ⟨.je, 0, 0x74, 2, target⟩) ∨
      (a = base + 3 ∧ ins = ⟨.ret, 0, 0xC3, 1, []⟩) := by
  unfold loopCode at h
  split_ifs at h with h₁ h₂ h₃
  · cases h
    exact .inl ⟨h₁, rfl⟩
  · cases h
    exact .inr (.inl ⟨h₂, rfl⟩)
  · cases h
    exact .inr (.inr ⟨h₃, rfl⟩)

lemma loopCode_closed {base : UInt64} {target : List Char}
    (htarget : CsInsn.target ⟨.je, 0, 0x74, 2, target⟩ = base)
    (hmax : ∀ i, base ≤ (loopFilter i).max → base + 1 ≤ (loopFilter i).max) (hne : base + 1 ≠ base) :
    ClosedCode (loopKeys base) (loopCode base target) loopFilter := by
  constructor
  · intro a ins _ hins htype
    obtain ⟨rfl, rfl⟩ | ⟨rfl, rfl⟩ | ⟨rfl, rfl⟩ := loopCode_cases hins
    · exact .inr (.inl rfl)
    · exact .inr (.inr (congrArg mapKey (UInt64.add_assoc base 1 2)))
    · exact absurd htype (by decide)
  · intro a ins _ hins htype
    obtain ⟨rfl, rfl⟩ | ⟨rfl, rfl⟩ | ⟨rfl, rfl⟩ := loopCode_cases hins
    · exact absurd htype (by decide)
    · rw [htarget]
      exact .inl rfl
    · exact absurd htype (by decide)
  · intro a ins _ hins htype
    obtain ⟨rfl, rfl⟩ | ⟨rfl, rfl⟩ | ⟨rfl, rfl⟩ := loopCode_cases hins
    · exact ⟨⟨⟨.je, 0, 0x74, 2, target⟩, (if_neg hne).trans (if_pos rfl)⟩, hmax⟩
    · have hje : CsInsn.opcodeAnalyzer ⟨.je, 0, 0x74, 2, target⟩ = .conditionalBranch := rfl
      cases htype
    · exact absurd htype (by decide)

lemma loopImages_separated : Separated loopImages loopFilter fun m => loopKeys (modeBase m) := by
  constructor
  · intro m
    cases m with
    | mode16 => exact loopCode_closed (by decide) (by decide) (by decide)
    | mode32 => exact loopCode_closed (by decide) (by decide) (by decide)
    | mode64 => exact loopCode_closed (by decide) (by decide) (by decide)
  · rintro m m' k (rfl | rfl | rfl) hk
    all_goals
      revert hk
      cases m <;> cases m' <;> simp [loopKeys, modeBase, mapKey]

def loopCall (m : DisassemblerMode) (data : UInt8) : TraceCall :=
  ⟨m, modeBase m, 0, TntCache.tntCacheInit.appendTntCache data, fun _ => 0⟩

def loopCalls : List TraceCall := [loopCall .mode32 0x06, loopCall .mode64 0x04, loopCall .mode16 0x06]

def afterLoopCalls : Disassembler :=
  (runCalls loopImages loopFilter 0x10000 20 Disassembler.new loopCalls).get (by decide +kernel)

theorem trace_mode_isolated_loops :
    loopFilter.Accepted ∧
      ((loopCall .mode64 0x0C).run loopImages loopFilter 0x10000 20 afterLoopCalls).map
        (·.2.tnt.blTnt) = some 0 ∧
      ∃ d', runCalls loopImages loopFilter 0x10000 20 Disassembler.new
          (loopCalls.filter (·.mode = .mode64)) = some d' ∧
        ((loopCall .mode64 0x0C).run loopImages loopFilter 0x10000 20 afterLoopCalls).map observed =
          ((loopCall .mode64 0x0C).run loopImages loopFilter 0x10000 20 d').map observed := by
  have hcalls : ∀ c ∈ loopCalls, loopKeys (modeBase c.mode) (mapKey c.entryPoint) := by
    intro c hc
    simp only [loopCalls, List.mem_cons, List.not_mem_nil, or_false] at hc
    rcases hc with rfl | rfl | rfl <;> exact .inl rfl
  have hcall : loopKeys (modeBase (loopCall .mode64 0x0C).mode)
      (mapKey (loopCall .mode64 0x0C).entryPoint) := .inl rfl
  have hrun : runCalls loopImages loopFilter 0x10000 20 Disassembler.new loopCalls =
      some afterLoopCalls := (Option.some_get _).symm
  exact ⟨by decide, by decide +kernel,
    trace_mode_isolated 0x10000 20 loopImages_separated hcalls hcall hrun⟩

/-- The bytes `A1 00 00 00 00 74 F9 C3 90 C3`: a move from a fixed address and a return in 64 bit
mode, and with a conditional branch in between in the other modes. -/
def movImages : DisassemblerMode → Image
  | .mode64 => fun a =>
    if a = 0x1000 then .insn ⟨.other 0, 0, 0xA1, 9, []⟩
    else if a = 0x1009 then .insn ⟨.ret, 0, 0xC3, 1, []⟩
    else .invalid
  | .mode32 => fun a =>
    if a = 0x1000 then .insn ⟨.other 0, 0, 0xA1, 5, []⟩
    else if a = 0x1005 then .insn ⟨.je, 0, 0x74, 2, ['0', 'x', '1', '0', '0', '0']⟩
    else if a = 0x1007 then .insn ⟨.ret, 0, 0xC3, 1, []⟩
    else .invalid
  | .mode16 => fun a =>
    if a = 0x1000 then .insn ⟨.other 0, 0, 0xA1, 3, []⟩
    else if a = 0x1003 then .insn ⟨.other 1, 0, 0x00, 2, []⟩
    else if a = 0x1005 then .insn ⟨.je, 0, 0x74, 2, ['0', 'x', '1', '0', '0', '0']⟩
    else if a = 0x1007 then .insn ⟨.ret, 0, 0xC3, 1, []⟩
    else .invalid

def movCall (m : DisassemblerMode) : TraceCall :=
  ⟨m, 0x1000, 0, TntCache.tntCacheInit.appendTntCache 0x04, fun _ => 0⟩

def afterMovCall : Disassembler :=
  (runCalls movImages loopFilter 0x10000 20 Disassembler.new [movCall .mode64]).get
    (by decide +kernel)

theorem not_trace_mode_isolated_mov :
    loopFilter.Accepted ∧
      runCalls movImages loopFilter 0x10000 20 Disassembler.new [movCall .mode64] =
        some afterMovCall ∧
      [movCall .mode64].filter (·.mode = .mode32) = [] ∧
      ((movCall .mode32).run movImages loopFilter 0x10000 20 Disassembler.new).map (·.2.tnt.blTnt) =
        some 0 ∧
      ((movCall .mode32).run movImages loopFilter 0x10000 20 afterMovCall).map (·.2.tnt.blTnt) =
        some 1 := by
  exact ⟨by decide, (Option.some_get _).symm, by decide, by decide +kernel, by decide +kernel⟩

end Runs

end Nyx.Pt
