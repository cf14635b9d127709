import Nyx.Pt.LoopWalk

/-!
# `trace_disassembler` follows the walk

The rounds of `trace_disassembler` put the pieces of the walk together, each found by the loop or
taken from the cache of tracelets, which tells what the loop would do for every buffer with its
hash.
-/

namespace Nyx.Pt

section Trace

variable (img : Image) (filter : AddrFilter) (size : UInt32)

/-- The tracelet stands for the transitions `ts` at the head of the outstanding bits. -/
structure Tells (tracelet : Tracelet) (ts : List Transition) (o : PieceEnd) (bits : List Bool) : Prop where
  tntBits : tracelet.tntBits = ts.length
  results : (size - 1).toNat < 2 ^ 24 → ∀ bitmap,
    tracelet.bitmapResults.foldl Tracelet.applyResult bitmap = ts.foldl (fuzzBitmapSet size) bitmap
  cont : tracelet.contExec = true → o = .next tracelet.nextEntryAddress
  stop : tracelet.contExec = false → ∀ b, o = .next b → bits.length ≤ ts.length

/-- A cached tracelet tells about every walk from its entry point whose bits have its hash. -/
def Cached (lookup : TraceCacheKey → Option Tracelet) : Prop :=
  ∀ key tracelet, lookup key = some tracelet → ∀ tnt : TntCache, tnt.getTntHash = key.tntHash →
    ∀ ts o, Piece img filter (maxResultsPerCache - 1) key.entry tnt.content ts o →
      Tells size tracelet ts o tnt.content

/-- The invariant of the disassembler between rounds. -/
structure SelfOk (d : Disassembler) : Prop where
  sound : Sound img filter d.dis
  listed : d.tmp.Listed
  cached : Cached img filter size d.lookup

variable {img filter size} {limit : UInt64} {ts : List Transition} {o : PieceEnd}

lemma Left.tells {bits : List Bool} {e : LoopExit} (h : Left size ts o (bits.drop ts.length) e)
    {tracelet : Tracelet} (htracelet : e.tracelet = some tracelet) :
    Tells size (tracelet.setNextEntryAddres e.entryPoint) ts o bits := by
  rw [h.tracelet, Option.some.injEq] at htracelet
  subst htracelet
  refine ⟨h.records.tntBits, fun hsize bitmap => ?_, fun hcont => ?_, fun hcont b hb => ?_⟩
  · exact h.records.foldl_bitmapResults hsize (e.result = .success) bitmap
  · exact h.cont (of_decide_eq_true hcont)
  · exact List.drop_eq_nil_iff.mp (h.stop (of_decide_eq_false hcont) b hb)

lemma Tells.congr {tracelet : Tracelet} {bits bits' : List Bool} (h : Tells size tracelet ts o bits)
    (hbits : bits'.take maxResultsPerCache = bits.take maxResultsPerCache)
    (hlength : ts.length < maxResultsPerCache) : Tells size tracelet ts o bits' := by
  refine ⟨h.tntBits, h.results, h.cont, fun hcont b hb => ?_⟩
  have hold := h.stop hcont b hb
  have heq := congrArg List.length hbits
  rw [List.length_take, List.length_take] at heq
  omega

namespace SelfOk

lemma traceCacheAdd {d : Disassembler} (h : SelfOk img filter size d) {key : TraceCacheKey}
    {tracelet : Tracelet}
    (htells : ∀ tnt : TntCache, tnt.getTntHash = key.tntHash → ∀ ts o,
      Piece img filter (maxResultsPerCache - 1) key.entry tnt.content ts o →
        Tells size tracelet ts o tnt.content) :
    SelfOk img filter size (d.traceCacheAdd key tracelet) := by
  unfold Disassembler.traceCacheAdd
  split
  · refine ⟨h.sound, h.listed, fun key' tracelet' hlookup => ?_⟩
    dsimp only at hlookup
    by_cases hkey : key' = key
    · rw [hkey, Function.update_self, Option.some.injEq] at hlookup
      rw [hkey, ← hlookup]
      exact htells
    · rw [Function.update_of_ne hkey] at hlookup
      exact h.cached key' tracelet' hlookup
  · exact h

lemma new : SelfOk img filter size Disassembler.new := by
  have hnone : ∀ a r, CofiMap.new.mapGet a ≠ some r := fun a r hr => by cases hr
  refine ⟨⟨⟨rfl, rfl, rfl, ?_, ⟨0, Nat.one_pos, rfl⟩, ?_, ?_⟩, ?_, ?_⟩, fun _ _ => rfl, ?_⟩
  · exact fun a r hr => absurd hr (hnone a r)
  · exact fun a r hr => absurd hr (hnone a r)
  · exact fun n _ => rfl
  · exact fun a ins r _ hr => absurd hr (hnone a r)
  · exact fun a ins _ hr => absurd hr (hnone a _)
  · exact fun key tracelet hlookup => by cases hlookup

section Round

variable {t : TraceState} (hcode : Placed img filter) (h : SelfOk img filter size t.self)
include hcode h

lemma onward_startLoop (limit : UInt64) :
    Onward img filter size limit t.entryPoint [] t.tnt.content (t.startLoop img filter) := by
  have hfinds := getObj_finds hcode h.sound t.entryPoint
  have hrecords : Records size t.self.tmp.resetTraceletTmpCache [] := Records.reset h.listed
  rcases hfinds.obj with hget | ⟨-, hnot⟩
  · exact .comes .start ⟨hfinds.sound, hget, hrecords, rfl, rfl⟩ rfl
  · exact .lost hnot

lemma tracks_startLoop (limit : UInt64)
    (hpiece : Piece img filter (maxResultsPerCache - 1) t.entryPoint t.tnt.content ts o) :
    Tracks img filter size limit (t.startLoop img filter) ts o (t.tnt.content.drop ts.length) :=
  (onward_startLoop hcode h limit).tracks hpiece fun _ hs hbits => hpiece.tracks hcode hs hbits rfl

lemma loopOk_startLoop : LoopOk img filter (t.startLoop img filter) := by
  have hfinds := getObj_finds hcode h.sound t.entryPoint
  have hreset : Records size t.self.tmp.resetTraceletTmpCache [] := Records.reset h.listed
  have hbody : LoopBody img filter
      { dis := (getObj img filter t.self.dis t.entryPoint).dis
        tmp := t.self.tmp.resetTraceletTmpCache
        tnt := t.tnt
        entryPoint := t.entryPoint
        failedPage := (getObj img filter t.self.dis t.entryPoint).failedPage
        obj := (getObj img filter t.self.dis t.entryPoint).obj
        lastObj := none
        dispatchType := .conditionalBranch
        label := .conditionalBranch } :=
    ⟨hfinds.sound, hreset.listed, fun l hl => by cases hl⟩
  exact hbody.dispatch (.inr rfl)

lemma exit {fuel : ℕ} {e : LoopExit}
    (he : iterate (LoopState.step img filter size limit) fuel (t.startLoop img filter) =
      some (some e)) :
    (Sound img filter e.dis ∧ e.tmp.Listed) ∧
      ∀ tnt : TntCache, tnt.getTntHash = t.tnt.getTntHash → ∀ ts o,
        Piece img filter (maxResultsPerCache - 1) t.entryPoint tnt.content ts o →
          Left size ts o (t.tnt.content.drop ts.length) e ∧
            tnt.content.take maxResultsPerCache = t.tnt.content.take maxResultsPerCache := by
  refine ⟨?_, fun tnt htnt ts o hpiece => ?_⟩
  · exact iterate_elim (fun _ hs => hs.step size hcode) (loopOk_startLoop hcode h) he e rfl
  · have hbits : tnt.content.take 58 = t.tnt.content.take 58 :=
      TntCache.take_content_eq_of_getTntHash htnt
    obtain ⟨e', hends, hleft⟩ := tracks_startLoop hcode h limit (hpiece.congr hbits.symm)
    have heq := Option.some.inj (hends.eq_of_iterate he)
    exact ⟨heq ▸ hleft, hbits⟩

lemma afterLoop {fuel : ℕ} {e : LoopExit}
    (he : iterate (LoopState.step img filter size limit) fuel (t.startLoop img filter) =
      some (some e)) :
    SelfOk img filter size (t.afterLoop e).self ∧
      (e.result ≠ .pageFault → ∀ tracelet, e.tracelet = some tracelet →
        SelfOk img filter size ((t.afterLoop e).self.traceCacheAdd
          ⟨t.tnt.getTntHash, t.entryPoint, limit⟩ (tracelet.setNextEntryAddres e.entryPoint))) := by
  obtain ⟨⟨hsound, hlisted⟩, hleft⟩ := exit hcode h he
  have hafter : SelfOk img filter size (t.afterLoop e).self :=
    ⟨hsound, hlisted, h.cached⟩
  refine ⟨hafter, fun _ tracelet htracelet => hafter.traceCacheAdd fun tnt htnt ts o hpiece => ?_⟩
  obtain ⟨hexit, hbits⟩ := hleft tnt htnt ts o hpiece
  refine (hexit.tells htracelet).congr hbits ?_
  have hlength := hpiece.length_le.1
  simp only [maxResultsPerCache] at hlength ⊢
  omega

lemma step (limit : UInt64) (fuel : ℕ) :
    Sum.elim (fun t : TraceState => SelfOk img filter size t.self)
      (fun o => ∀ x, o = some x → SelfOk img filter size x.2.self)
      (t.step img filter size limit fuel) :=
  TraceState.step_elim size h fun _ he => afterLoop hcode h he

end Round

lemma runCalls (hcode : Placed img filter) {fuel : ℕ} {calls : List TraceCall} {d e : Disassembler}
    (hd : SelfOk img filter size d)
    (hrun : runCalls (fun _ => img) filter size fuel d calls = some e) :
    SelfOk img filter size e :=
  runCalls_elim size (fun limit _ ht => step hcode ht limit fuel) hd hrun

end SelfOk

/-! ### Rounds -/

variable (size) in
/-- The transitions `ts` are in the bitmap, and a bit is used for each. -/
structure Moved (t : TraceState) (ts : List Transition) (t' : TraceState) : Prop where
  content : t'.tnt.content = t.tnt.content.drop ts.length
  bitmap : (size - 1).toNat < 2 ^ 24 → t'.bitmap = ts.foldl (fuzzBitmapSet size) t.bitmap

variable (size) in
/-- What a round makes of a piece: it goes on with the next one, or it returns with no bit left if
there is one. -/
def Advances (t : TraceState) (ts : List Transition) (o : PieceEnd) :
    TraceState ⊕ Option (DisasResult × TraceState) → Prop
  | .inl t' => o = .next t'.entryPoint ∧ Moved size t ts t'
  | .inr none => False
  | .inr (some x) => (∀ b, o = .next b → t.tnt.content.length ≤ ts.length) ∧
    x.1 = .success ∧ Moved size t ts x.2

variable {t : TraceState}

lemma Tells.advances {tracelet : Tracelet} (h : Tells size tracelet ts o t.tnt.content)
    (hlength : ts.length ≤ t.tnt.content.length) :
    Advances size t ts o
      (let s := { t.applyTracelet tracelet true with entryPoint := tracelet.nextEntryAddress }
        if tracelet.contExec then .inl s else .inr (some (.success, s))) := by
  have hmoved : Moved size t ts
      { t.applyTracelet tracelet true with entryPoint := tracelet.nextEntryAddress } := by
    refine ⟨?_, fun hsize => h.results hsize t.bitmap⟩
    have hcount : tracelet.tntBits ≤ t.tnt.blTnt := by
      rw [h.tntBits, ← TntCache.length_content]
      exact hlength
    rw [← h.tntBits]
    exact TntCache.content_adjustTntCache t.tnt hcount
  cases hcont : tracelet.contExec with
  | true => exact ⟨h.cont hcont, hmoved⟩
  | false => exact ⟨h.stop hcont, rfl, hmoved⟩

lemma SelfOk.round (hcode : Placed img filter) (h : SelfOk img filter size t.self) (limit : UInt64)
    (hpiece : Piece img filter (maxResultsPerCache - 1) t.entryPoint t.tnt.content ts o) :
    ∃ N r, (∀ fuel, N ≤ fuel → t.step img filter size limit fuel = r) ∧ Advances size t ts o r := by
  cases hlookup : t.self.lookup ⟨t.tnt.getTntHash, t.entryPoint, limit⟩ with
  | some tracelet =>
    have htells := h.cached _ tracelet hlookup t.tnt rfl ts o hpiece
    refine ⟨0, _, fun fuel _ => ?_, htells.advances hpiece.length_le.2⟩
    simp only [TraceState.step, hlookup]
  | none =>
    obtain ⟨e, ⟨m, hm⟩, hleft⟩ := h.tracks_startLoop hcode limit hpiece
    have htracelet := hleft.tracelet
    have htells := hleft.tells htracelet
    generalize e.tmp.newFromTraceletCacheTmp (e.result = .success) = tracelet at htracelet htells
    have hmoved : Moved size t ts
        ((t.afterLoop e).applyTracelet (tracelet.setNextEntryAddres e.entryPoint) false) :=
      ⟨hleft.content, fun hsize => htells.results hsize t.bitmap⟩
    have hstep : ∀ fuel, m ≤ fuel → t.step img filter size limit fuel =
        (let s := (t.afterLoop e).applyTracelet (tracelet.setNextEntryAddres e.entryPoint) false
        let s := { s with
          self := s.self.traceCacheAdd ⟨t.tnt.getTntHash, t.entryPoint, limit⟩
            (tracelet.setNextEntryAddres e.entryPoint) }
        if e.result = .success then .inl s else .inr (some (.success, s))) := by
      intro fuel hfuel
      simp only [TraceState.step, hlookup, iterate_mono hm hfuel, if_neg hleft.fault, htracelet]
    refine ⟨m, _, hstep, ?_⟩
    by_cases hsuccess : e.result = .success
    · rw [if_pos hsuccess]
      exact ⟨hleft.cont hsuccess, hmoved.content, hmoved.bitmap⟩
    · rw [if_neg hsuccess]
      refine ⟨fun b hb => ?_, rfl, hmoved.content, hmoved.bitmap⟩
      exact List.drop_eq_nil_iff.mp (hleft.stop hsuccess b hb)

/-! ### Whole walks -/

lemma WalkState.ends_nil {u w : WalkState} (h : Ends (WalkState.step img filter) u w)
    (hbits : u.bits = []) : w.made = u.made ∧ w.bits = [] := by
  obtain ⟨k, hk⟩ := h
  refine iterate_elim (P := fun v : WalkState => v.made = u.made ∧ v.bits = [])
    (Q := fun v : WalkState => v.made = u.made ∧ v.bits = []) (fun v hv => ?_) ⟨rfl, hbits⟩ hk
  unfold WalkState.step
  split
  · exact hv
  · split
    · split
      · exact hv
      · exact hv
      · rw [hv.2]
        exact hv
      · exact hv
    · exact hv

variable (img filter size) in
/-- The call has done what the walk says. -/
structure Finished (u w : WalkState) (bitmap : FuzzBitmap) (x : DisasResult × TraceState) : Prop where
  result : x.1 = .success
  content : x.2.tnt.content = w.bits
  bitmap : ∃ rest, w.made = u.made ++ rest ∧
    ((size - 1).toNat < 2 ^ 24 → x.2.bitmap = rest.foldl (fuzzBitmapSet size) bitmap)

/-- `trace_disassembler` returns for every walk that ends, and has done what the walk says. -/
theorem SelfOk.returns (hcode : Placed img filter) (h : SelfOk img filter size t.self)
    (limit : UInt64) {u w : WalkState}
    (hends : Ends (WalkState.step img filter) u w)
    (htracked : ∀ v, Visits (WalkState.step img filter) u v → Tracked img filter v.addr)
    (haddr : t.entryPoint = u.addr) (hbits : t.tnt.content = u.bits) :
    ∃ N, ∀ fuel n, N ≤ fuel → N ≤ n → ∃ x,
      iterate (TraceState.step img filter size limit fuel) n t = some (some x) ∧
        Finished size u w t.bitmap x := by
  -- every round that goes on uses up the bits of a full tracelet
  induction hk : t.tnt.content.length using Nat.strong_induction_on generalizing t u with
  | _ k ih =>
    obtain ⟨rounds, hrounds⟩ := hends
    obtain ⟨ts, o, hpiece, hnext, hstop⟩ :=
      WalkState.begins hrounds htracked (maxResultsPerCache - 1)
    rw [← haddr, ← hbits] at hpiece
    obtain ⟨N, r, hround, hadvances⟩ := h.round hcode limit hpiece
    match r, hadvances with
    | .inl t', ⟨ho, hmoved⟩ =>
      have hself : SelfOk img filter size t'.self := by
        have hstep := h.step hcode limit N
        rw [hround N le_rfl] at hstep
        exact hstep
      obtain ⟨v, hv, hcontinues⟩ := hnext _ ho
      have hlength := hpiece.length_eq ho
      have hlong := hpiece.length_le.2
      have hless : t'.tnt.content.length < k := by
        rw [hmoved.content, List.length_drop]
        simp only [maxResultsPerCache] at hlength
        omega
      have hrest : t'.tnt.content = v.bits := by
        rw [hmoved.content, hcontinues.bits, hbits, hlength]
      obtain ⟨M, hM⟩ := ih _ hless hself hcontinues.ends
        (fun v' hv' => htracked v' (hcontinues.visits.trans hv')) hv.symm hrest rfl
      refine ⟨max N (M + 1), fun fuel n hfuel hn => ?_⟩
      obtain ⟨n, rfl⟩ : ∃ m, n = m + 1 := ⟨n - 1, by omega⟩
      obtain ⟨x, hx, hresult, hcontent, rest, hmade, hbitmap⟩ := hM fuel n (by omega) (by omega)
      refine ⟨x, (iterate_of_inl (hround fuel (by omega)) n).trans hx, hresult, hcontent, ts ++ rest,
        ?_, fun hsize => ?_⟩
      · rw [hmade, hcontinues.made, List.append_assoc]
      · rw [hbitmap hsize, hmoved.bitmap hsize, List.foldl_append]
    | .inr (some x), ⟨hleft, hresult, hmoved⟩ =>
      refine ⟨max N 1, fun fuel n hfuel hn => ⟨x, ?_, ?_⟩⟩
      · obtain ⟨n, rfl⟩ : ∃ m, n = m + 1 := ⟨n - 1, by omega⟩
        exact iterate_of_inr (hround fuel (by omega)) n
      · cases o with
        | stop =>
          obtain ⟨hmade, hrest⟩ := hstop rfl
          exact ⟨hresult, by rw [hmoved.content, hrest, hbits], ts, hmade, hmoved.bitmap⟩
        | next b =>
          -- the limit has stopped the loop with no bit left
          obtain ⟨v, -, hcontinues⟩ := hnext b rfl
          have hnil : t.tnt.content.drop ts.length = [] := List.drop_eq_nil_iff.mpr (hleft b rfl)
          have hvnil : v.bits = [] := by
            rw [hcontinues.bits, ← hbits, ← hpiece.length_eq rfl, hnil]
          obtain ⟨hmade, hwnil⟩ := WalkState.ends_nil hcontinues.ends hvnil
          refine ⟨hresult, ?_, ts, ?_, hmoved.bitmap⟩
          · rw [hmoved.content, hnil, hwnil]
          · rw [hmade, hcontinues.made]

lemma WalkState.tracked_of_inside {s u : WalkState} {i : Fin 4}
    (hinside : ∀ u, Visits (WalkState.step img filter) s u →
      (filter i).contains u.addr ∧ ∃ ins, img u.addr = .insn ins)
    (hu : Visits (WalkState.step img filter) s u) : Tracked img filter u.addr := by
  obtain ⟨hrange, ins, hins⟩ := hinside u hu
  have hcoded : Coded img filter u.addr ins := ⟨hins, i, hrange⟩
  refine ⟨ins, hcoded, fun hclass hleaves => ?_⟩
  have hstep : u.step img filter = .inl { u with addr := u.addr + ins.size.toUInt64 } := by
    rw [WalkState.step_of_coded hcoded, hclass]
  obtain ⟨hnext, ins', hins'⟩ := hinside _ (hu.next hstep)
  rcases hleaves with hnot | hnot
  · exact hnot ins' hins'
  · exact hnot i ⟨hrange, hnext⟩

lemma WalkState.bits_eq_drop {a : UInt64} {bits : List Bool} {w : WalkState}
    (h : Ends (WalkState.step img filter) ⟨a, bits, []⟩ w) : w.bits = bits.drop w.made.length := by
  obtain ⟨k, hk⟩ := h
  refine iterate_elim (P := fun v : WalkState => v.bits = bits.drop v.made.length)
    (Q := fun v : WalkState => v.bits = bits.drop v.made.length) (fun v hv => ?_) rfl hk
  unfold WalkState.step
  split
  · exact hv
  · split
    · split
      · exact hv
      · exact hv
      · split
        · exact hv
        · next taken rest hbits =>
          rw [hbits] at hv
          have htail : rest = bits.drop (v.made.length + 1) := by
            rw [← List.tail_drop, ← hv, List.tail_cons]
          simpa using htail
      · exact hv
    · exact hv

end Trace

/-- After any calls on the same code, `trace_disassembler` does to the bitmap what the transitions of
the walk do one by one and uses one bit for each, for every walk inside a range that ends. -/
theorem traceDisassembler_refines {img : Image} {filter : AddrFilter} {size : UInt32}
    (hpages : ∀ a page, img a ≠ .failed page) (hdistinct : img.Distinct)
    (haccepted : filter.Accepted) (hapart : filter.Apart) (hsize : (size - 1).toNat < 2 ^ 24)
    {earlier : ℕ} {calls : List TraceCall} {self : Disassembler}
    (hcalls : runCalls (fun _ => img) filter size earlier Disassembler.new calls = some self)
    (entryPoint limit : UInt64) (tnt : TntCache) (bitmap : FuzzBitmap) {w : WalkState}
    (hends : Ends (WalkState.step img filter) ⟨entryPoint, tnt.content, []⟩ w) {i : Fin 4}
    (hinside : ∀ u, Visits (WalkState.step img filter) ⟨entryPoint, tnt.content, []⟩ u →
      (filter i).contains u.addr ∧ ∃ ins, img u.addr = .insn ins) :
    ∃ N, ∀ fuel, N ≤ fuel → ∃ s,
      traceDisassembler img filter size fuel self entryPoint limit tnt bitmap = some (.success, s) ∧
        s.bitmap = w.made.foldl (fuzzBitmapSet size) bitmap ∧
        s.tnt.content = tnt.content.drop w.made.length := by
  have hcode : Placed img filter := ⟨hpages, hdistinct, haccepted, hapart⟩
  have hself : SelfOk img filter size self := SelfOk.new.runCalls hcode hcalls
  have htracked : ∀ u, Visits (WalkState.step img filter) ⟨entryPoint, tnt.content, []⟩ u →
      Tracked img filter u.addr := fun _ hu => WalkState.tracked_of_inside hinside hu
  obtain ⟨N, hN⟩ := SelfOk.returns (t := ⟨self, entryPoint, tnt, bitmap, 0⟩) hcode hself limit
    hends htracked rfl rfl
  refine ⟨N, fun fuel hfuel => ?_⟩
  obtain ⟨⟨result, s⟩, hx, hresult, hcontent, rest, hmade, hbitmap⟩ := hN fuel fuel hfuel hfuel
  have hwhole : w.made = rest := hmade
  refine ⟨s, ?_, ?_, ?_⟩
  · rw [traceDisassembler, hx, ← hresult]
    rfl
  · rw [hwhole]
    exact hbitmap hsize
  · rw [← WalkState.bits_eq_drop hends]
    exact hcontent

def backCode : Image := loopCode 0x1000 (modeTarget .mode16)

lemma backCode_pages (a page : UInt64) : backCode a ≠ .failed page := by
  unfold backCode loopCode
  split_ifs <;> simp

lemma Image.distinct_of_mem {img : Image} (addrs : List UInt64)
    (hcode : ∀ a ins, img a = .insn ins → a ∈ addrs)
    (hkeys : (addrs.map mapKey).Nodup) : img.Distinct :=
  fun a b i j ha hb hkey => List.inj_on_of_nodup_map hkeys (hcode a i ha) (hcode b j hb) hkey

lemma backCode_distinct : backCode.Distinct := by
  apply Image.distinct_of_mem [0x1000, 0x1001, 0x1003] _ (by decide)
  intro a ins ha
  obtain ⟨rfl, -⟩ | ⟨rfl, -⟩ | ⟨rfl, -⟩ := loopCode_cases ha <;> decide

lemma loopFilter_apart : loopFilter.Apart := by
  unfold AddrFilter.Apart
  decide

def backSelf : Disassembler :=
  (runCalls (fun _ => backCode) loopFilter 0x10000 20 Disassembler.new
    [loopCall .mode16 0x04]).get (by decide +kernel)

lemma backSelf_calls :
    runCalls (fun _ => backCode) loopFilter 0x10000 20 Disassembler.new [loopCall .mode16 0x04] =
      some backSelf := (Option.some_get _).symm

def backTnt : TntCache := TntCache.tntCacheInit.appendTntCache 0x0C

lemma backTnt_content : backTnt.content = [true, false] := by decide +kernel

lemma backCode_ends :
    iterate (WalkState.step backCode loopFilter) 5 ⟨0x1000, backTnt.content, []⟩ =
      some ⟨0x1003, [], [(0x1001, 0x1000), (0x1001, 0x1003)]⟩ := by
  decide +kernel

lemma backCode_inside {u : WalkState}
    (h : Visits (WalkState.step backCode loopFilter) ⟨0x1000, backTnt.content, []⟩ u) :
    (loopFilter 0).contains u.addr ∧ ∃ ins, backCode u.addr = .insn ins := by
  have hmem := h.mem_trail backCode_ends
  have haddr : u.addr ∈ (trail (WalkState.step backCode loopFilter) 5
      ⟨0x1000, backTnt.content, []⟩).map (·.addr) := List.mem_map_of_mem hmem
  rw [backTnt_content, show (trail (WalkState.step backCode loopFilter) 5
    ⟨0x1000, [true, false], []⟩).map (·.addr) = [0x1000, 0x1001, 0x1000, 0x1001, 0x1003] by
      decide +kernel] at haddr
  simp only [List.mem_cons, List.not_mem_nil, or_false] at haddr
  rcases haddr with hu | hu | hu | hu | hu <;> rw [hu] <;> exact ⟨rfl, _, rfl⟩

theorem traceDisassembler_refines_back :
    ∃ N, ∀ fuel, N ≤ fuel → ∃ s,
      traceDisassembler backCode loopFilter 0x10000 fuel backSelf 0x1000 0 backTnt (fun _ => 0) =
          some (.success, s) ∧
        s.bitmap = [(0x1001, 0x1000), (0x1001, 0x1003)].foldl (fuzzBitmapSet 0x10000) (fun _ => 0) ∧
        s.tnt.content = backTnt.content.drop 2 :=
  traceDisassembler_refines backCode_pages backCode_distinct (by decide) loopFilter_apart (by decide)
    backSelf_calls 0x1000 0 backTnt (fun _ => 0) ⟨5, backCode_ends⟩ fun _ hu => backCode_inside hu

section Fuel

variable {img : Image} {filter : AddrFilter} {size : UInt32} {limit : UInt64} {fuel fuel' : ℕ}

lemma TraceState.step_mono (hfuel : fuel ≤ fuel') (t : TraceState) :
    (∀ t', t.step img filter size limit fuel = .inl t' →
        t.step img filter size limit fuel' = .inl t') ∧
      ∀ x, t.step img filter size limit fuel = .inr (some x) →
        t.step img filter size limit fuel' = .inr (some x) := by
  unfold TraceState.step
  dsimp only
  cases t.self.lookup ⟨t.tnt.getTntHash, t.entryPoint, limit⟩ with
  | some tracelet => exact ⟨fun _ h => h, fun _ h => h⟩
  | none =>
    cases hloop : iterate (LoopState.step img filter size limit) fuel (t.startLoop img filter) with
    | none => exact ⟨fun _ h => (by cases h), fun _ h => (by cases h)⟩
    | some e =>
      rw [iterate_mono hloop hfuel]
      exact ⟨fun _ h => h, fun _ h => h⟩

lemma traceDisassembler_mono (hfuel : fuel ≤ fuel') {self : Disassembler} {entryPoint : UInt64}
    {tnt : TntCache} {bitmap : FuzzBitmap} {x : DisasResult × TraceState}
    (h : traceDisassembler img filter size fuel self entryPoint limit tnt bitmap = some x) :
    traceDisassembler img filter size fuel' self entryPoint limit tnt bitmap = some x := by
  unfold traceDisassembler at h ⊢
  rw [Option.join_eq_some_iff] at h ⊢
  exact iterate_mono (iterate_extend (fun t => (TraceState.step_mono hfuel t).1)
    (fun t => (TraceState.step_mono hfuel t).2) h) hfuel

end Fuel

def touchCode : Image := fun a =>
  if a = 0x1000 ∨ a = 0x1005 then .insn ⟨.je, 0, 0x74, 2, "0x1007".toList⟩
  else if a = 0x1002 ∨ a = 0x1003 ∨ a = 0x1004 then .insn ⟨.other 0, 0, 0x90, 1, []⟩
  else if a = 0x1007 then .insn ⟨.ret, 0, 0xC3, 1, []⟩
  else .invalid

def touchFilter : AddrFilter := fun i =>
  if i = 0 then ⟨0x1000, 0x1004⟩ else if i = 1 then ⟨0x1004, 0x2000⟩ else ⟨0, 0⟩

def touchSelf : Disassembler :=
  (runCalls (fun _ => touchCode) touchFilter 0x10000 20 Disassembler.new
    [⟨.mode64, 0x1000, 0, TntCache.tntCacheInit, fun _ => 0⟩]).get (by decide +kernel)

lemma touchSelf_calls :
    runCalls (fun _ => touchCode) touchFilter 0x10000 20 Disassembler.new
      [⟨.mode64, 0x1000, 0, TntCache.tntCacheInit, fun _ => 0⟩] = some touchSelf :=
  (Option.some_get _).symm

def touchTnt : TntCache := TntCache.tntCacheInit.appendTntCache 0x06

lemma touchCode_ends :
    iterate (WalkState.step touchCode touchFilter) 3 ⟨0x1004, touchTnt.content, []⟩ =
      some ⟨0x1007, [], [(0x1005, 0x1007)]⟩ := by
  decide +kernel

lemma touchCode_inside {u : WalkState}
    (h : Visits (WalkState.step touchCode touchFilter) ⟨0x1004, touchTnt.content, []⟩ u) :
    (touchFilter 1).contains u.addr ∧ ∃ ins, touchCode u.addr = .insn ins := by
  have hmem := h.mem_trail touchCode_ends
  have haddr : u.addr ∈ (trail (WalkState.step touchCode touchFilter) 3
      ⟨0x1004, touchTnt.content, []⟩).map (·.addr) := List.mem_map_of_mem hmem
  rw [show touchTnt.content = [true] by decide +kernel, show (trail (WalkState.step touchCode touchFilter) 3
    ⟨0x1004, [true], []⟩).map (·.addr) = [0x1004, 0x1005, 0x1007] by decide +kernel] at haddr
  simp only [List.mem_cons, List.not_mem_nil, or_false] at haddr
  rcases haddr with hu | hu | hu <;> rw [hu] <;> exact ⟨rfl, _, rfl⟩

lemma touchCode_distinct : touchCode.Distinct := by
  refine Image.distinct_of_mem [0x1000, 0x1002, 0x1003, 0x1004, 0x1005, 0x1007]
    (fun a ins ha => ?_) (by decide)
  unfold touchCode at ha
  split_ifs at ha with h₁ h₂ h₃
  · rcases h₁ with rfl | rfl <;> decide
  · rcases h₂ with rfl | rfl | rfl <;> decide
  · subst h₃
    decide

/-- The sweep of the first range ran over its end into the second one. The plain instruction there has
an element that leads nowhere, and the branch after it keeps its bit. -/
theorem not_traceDisassembler_refines_touch :
    (∀ a page, touchCode a ≠ .failed page) ∧ touchCode.Distinct ∧ touchFilter.Accepted ∧
      runCalls (fun _ => touchCode) touchFilter 0x10000 20 Disassembler.new
        [⟨.mode64, 0x1000, 0, TntCache.tntCacheInit, fun _ => 0⟩] = some touchSelf ∧
      Ends (WalkState.step touchCode touchFilter) ⟨0x1004, touchTnt.content, []⟩
        ⟨0x1007, [], [(0x1005, 0x1007)]⟩ ∧
      (∀ u, Visits (WalkState.step touchCode touchFilter) ⟨0x1004, touchTnt.content, []⟩ u →
        (touchFilter 1).contains u.addr ∧ ∃ ins, touchCode u.addr = .insn ins) ∧
      ¬∃ N, ∀ fuel, N ≤ fuel → ∃ s,
        traceDisassembler touchCode touchFilter 0x10000 fuel touchSelf 0x1004 0 touchTnt (fun _ => 0) =
            some (.success, s) ∧
          s.bitmap = [(0x1005, 0x1007)].foldl (fuzzBitmapSet 0x10000) (fun _ => 0) ∧
          s.tnt.content = touchTnt.content.drop 1 := by
  refine ⟨fun a page => ?_, touchCode_distinct, by decide, touchSelf_calls, ⟨3, touchCode_ends⟩,
    fun _ hu => touchCode_inside hu, ?_⟩
  · unfold touchCode
    split_ifs <;> simp
  · rintro ⟨N, hN⟩
    obtain ⟨s, hs, -, hcontent⟩ := hN (max N 20) (le_max_left N 20)
    have hleft : (traceDisassembler touchCode touchFilter 0x10000 20 touchSelf 0x1004 0 touchTnt
        (fun _ => 0)).map (·.2.tnt.blTnt) = some 1 := by decide +kernel
    obtain ⟨x, hx, hone⟩ := Option.map_eq_some_iff.mp hleft
    rw [traceDisassembler_mono (le_max_right N 20) hx, Option.some.injEq] at hs
    have hlength := congrArg List.length hcontent
    rw [TntCache.length_content, List.length_drop, TntCache.length_content] at hlength
    rw [hs] at hone
    have hkept : s.tnt.blTnt = 1 := hone
    have hbits : touchTnt.blTnt = 1 := by decide +kernel
    omega

end Nyx.Pt
