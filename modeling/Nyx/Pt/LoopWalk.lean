import Nyx.Pt.ReferenceWalk

/-!
# The loop follows the walk

From the element of an instruction `trace_disassembler_loop` comes to the element of the next one
that the walk passes, and records what the walk does.
-/

namespace Nyx.Pt

open LoopState (step header doConditionalBranch)

section Loop

variable (img : Image) (filter : AddrFilter) (size : UInt32) (limit : UInt64)

/-- The loop is about to execute the instruction at `a`, and `ts` is what was recorded so far. -/
structure At (a : UInt64) (ts : List Transition) (s : LoopState) : Prop where
  sound : Sound img filter s.dis
  obj : s.dis.mapGet a = some s.obj
  records : Records size s.tmp ts
  label : s.label = dispatchTable s.header.type
  dispatchType : s.dispatchType = s.header.type

/-- The loop is left at the end of the trace, with `bits` outstanding. -/
structure Quits (ts : List Transition) (bits : List Bool) (s : LoopState) (e : LoopExit) : Prop where
  ends : Ends (step img filter size limit) s (some e)
  records : Records size e.tmp ts
  content : e.tnt.content = bits
  result : e.result ≠ .success ∧ e.result ≠ .pageFault
  tracelet : e.tracelet = some (e.tmp.newFromTraceletCacheTmp false)

/-- The loop comes to the instruction at `b`, unless `b` is no code of a range; or it quits because
of the limit when no bit is left. -/
inductive Onward (b : UInt64) (ts : List Transition) (bits : List Bool) (s : LoopState) : Prop
  | comes {t : LoopState} (hvisits : Visits (step img filter size limit) s t)
    (hat : At img filter size b ts t) (hbits : t.tnt.content = bits)
  | lost (hout : Outside img filter b)
  | limit {e : LoopExit} (hbits : bits = []) (hquits : Quits img filter size limit ts bits s e)

variable {img filter size limit} {s : LoopState} {a b : UInt64} {ts : List Transition}
  {bits : List Bool}

lemma Quits.of_step {s' : LoopState} {e : LoopExit} (h : Quits img filter size limit ts bits s' e)
    (hstep : s.step img filter size limit = .inl s') : Quits img filter size limit ts bits s e :=
  ⟨h.ends.next hstep, h.records, h.content, h.result, h.tracelet⟩

lemma Onward.of_step {s' : LoopState} (h : Onward img filter size limit b ts bits s')
    (hstep : s.step img filter size limit = .inl s') : Onward img filter size limit b ts bits s := by
  cases h with
  | comes hvisits hat hbits => exact .comes (hvisits.of_step hstep) hat hbits
  | lost hout => exact .lost hout
  | limit hbits hquits => exact .limit hbits (hquits.of_step hstep)

lemma quits_finish {result : DisasResult} (hstep : s.step img filter size limit = s.finish result)
    (hresult : result ≠ .success ∧ result ≠ .pageFault) (hrecords : Records size s.tmp ts) :
    ∃ e, Quits img filter size limit ts s.tnt.content s e :=
  ⟨_, .done hstep, hrecords, rfl, hresult, rfl⟩

lemma step_branchCheck (hlabel : s.label = .branchCheckT ∨ s.label = .branchCheckNt) {last : Ref}
    (hlast : s.lastObj = some last) :
    s.step img filter size limit = .inl (s.dispatch s.header.type) ∨
      s.tnt.content = [] ∧ s.step img filter size limit = .inl (s.dispatch .outOfBounds) := by
  have hcheck : ∀ start : CofiHeader → UInt64,
      s.branchCheck limit start = .inl (s.dispatch s.header.type) ∨
        s.tnt.content = [] ∧ s.branchCheck limit start = .inl (s.dispatch .outOfBounds) := by
    intro start
    simp only [LoopState.branchCheck, hlast, ← TntCache.isEmptyTntCache_iff]
    split
    · next hout => exact .inr ⟨(Bool.and_eq_true_iff.mp hout).2, rfl⟩
    · exact .inl rfl
  unfold step
  rcases hlabel with hlabel | hlabel
  · rw [hlabel]
    exact hcheck _
  · rw [hlabel]
    exact hcheck _

lemma onward_branchCheck (hlabel : s.label = .branchCheckT ∨ s.label = .branchCheckNt) {last : Ref}
    (hlast : s.lastObj = some last) (hrecords : Records size s.tmp ts)
    (hgo : Onward img filter size limit b ts s.tnt.content (s.dispatch s.header.type)) :
    Onward img filter size limit b ts s.tnt.content s := by
  rcases step_branchCheck hlabel hlast with hstep | ⟨hempty, hstep⟩
  · exact hgo.of_step hstep
  · have hfinish : (s.dispatch .outOfBounds).step img filter size limit =
        (s.dispatch .outOfBounds).finish .outOfBounds := rfl
    obtain ⟨e, he⟩ := quits_finish hfinish (by decide) hrecords
    exact .limit hempty (he.of_step hstep)

lemma dispatchTableT_cases (type : CofiType) : dispatchTableT type = .branchCheckT ∨ ¬type.Live := by
  cases type <;> simp [dispatchTableT, CofiType.Live]

lemma dispatchTableNt_cases (type : CofiType) : dispatchTableNt type = .branchCheckNt ∨ ¬type.Live := by
  cases type <;> simp [dispatchTableNt, CofiType.Live]

variable (img filter size) in
/-- The loop has moved to the element of `b`, if there is one. -/
structure Arrived (b : UInt64) (ts : List Transition) (s : LoopState) : Prop where
  sound : Sound img filter s.dis
  obj : s.dis.mapGet b = some s.obj ∨ Outside img filter b
  records : Records size s.tmp ts
  last : ∃ last, s.lastObj = some last

namespace Arrived

variable (h : Arrived img filter size b ts s)
include h

lemma dispatch : Onward img filter size limit b ts s.tnt.content (s.dispatch s.header.type) := by
  rcases h.obj with hget | hout
  · exact .comes .start ⟨h.sound, hget, h.records, rfl, rfl⟩ rfl
  · exact .lost hout

lemma check (hlabel : s.label = .branchCheckT ∨ s.label = .branchCheckNt) :
    Onward img filter size limit b ts s.tnt.content s := by
  obtain ⟨last, hlast⟩ := h.last
  exact onward_branchCheck hlabel hlast h.records h.dispatch

lemma label {check : Label}
    (hcheck : check = .branchCheckT ∨ check = .branchCheckNt)
    (htable : s.label = check ∨ ¬s.header.type.Live) :
    Onward img filter size limit b ts s.tnt.content s := by
  rcases htable with hlabel | hdead
  · exact h.check (hlabel ▸ hcheck)
  · rcases h.obj with hget | hout
    · exact absurd (h.sound.live b s.obj hget) hdead
    · exact .lost hout

lemma dispatchT : Onward img filter size limit b ts s.tnt.content s.dispatchT :=
  label (s := s.dispatchT) ⟨h.sound, h.obj, h.records, h.last⟩ (.inl rfl)
    (dispatchTableT_cases s.header.type)

lemma dispatchNt : Onward img filter size limit b ts s.tnt.content s.dispatchNt :=
  label (s := s.dispatchNt) ⟨h.sound, h.obj, h.records, h.last⟩ (.inr rfl)
    (dispatchTableNt_cases s.header.type)

end Arrived

lemma arrived_fetch (hcode : Placed img filter) (hsound : Sound img filter s.dis)
    (hrecords : Records size s.tmp ts) {last : Ref} (hlast : s.lastObj = some last) (b : UInt64) :
    Arrived img filter size b ts (s.fetch img filter b) := by
  have hfinds := getObj_finds hcode hsound b
  exact ⟨hfinds.sound, hfinds.obj.imp_right And.right, hrecords, last, hlast⟩

lemma onward_disassembleT (hcode : Placed img filter) (hsound : Sound img filter s.dis)
    (hrecords : Records size s.tmp ts)
    (hlabel : s.label = .disassembleT) {last : Ref} (hlast : s.lastObj = some last)
    (htype : (s.dis.heap last).cofi.type ≠ .disassemblyPending)
    (hb : (s.dis.heap last).cofi.targetAddr = b) :
    Onward img filter size limit b ts s.tnt.content s := by
  have hfinds := getObj_finds hcode hsound b
  have harrived := arrived_fetch hcode hsound hrecords hlast b
  generalize hf : s.fetch img filter b = f at harrived
  have hstep : s.step img filter size limit =
      .inl { f with dis := f.dis.setCofiTargetPtr last f.obj }.dispatchT := by
    simp only [step, hlabel, hlast, hb, hf]
  have hheader : (f.dis.heap last).cofi = (s.dis.heap last).cofi := by
    rw [← hf]
    exact hfinds.grows.headers last htype
  have hlinked : Arrived img filter size b ts
      { f with dis := f.dis.setCofiTargetPtr last f.obj } := by
    refine ⟨harrived.sound.setCofiTargetPtr ?_, harrived.obj, harrived.records, harrived.last⟩
    rw [hheader, hb, ← hf]
    exact hfinds.obj
  have htnt : f.tnt = s.tnt := hf ▸ rfl
  rw [← htnt]
  exact hlinked.dispatchT.of_step hstep

def LoopState.jumped (s : LoopState) (target : Ref) : LoopState := { s with
  lastObj := some s.obj
  obj := target
  dispatchType := .unconditionalDirectBranch
  label := .branchCheckT }

namespace At

variable {ins : CsInsn}

variable (h : At img filter size a ts s) (hins : img a = .insn ins)
include h hins

lemma describes : Describes img filter s.dis a ins s.obj := h.sound.describes a ins s.obj hins h.obj

lemma plain (hclass : ins.opcodeAnalyzer = .noCofiType)
    (hstay : ¬Leaves img filter a (a + ins.size.toUInt64)) (limit : UInt64) :
    At img filter size (a + ins.size.toUInt64) ts s ∨
      ∃ s', s.step img filter size limit = .inl s' ∧
        Onward img filter size limit (a + ins.size.toUInt64) ts s.tnt.content s' := by
  rcases (describes_plain hclass).mp (h.describes hins) with
    hrun | ⟨htype, next, hnext, hmapped⟩ | hleaves
  · exact .inl ⟨h.sound, hrun, h.records, h.label, h.dispatchType⟩
  · have hlabel : s.label = .noCofi := by
      rw [h.label, header, htype]
      rfl
    have hstep : s.step img filter size limit =
        .inl { s with lastObj := some s.obj, obj := next }.dispatchNt := by
      simp only [step, hlabel, hnext]
    have harrived : Arrived img filter size (a + ins.size.toUInt64) ts
        { s with lastObj := some s.obj, obj := next } :=
      ⟨h.sound, .inl hmapped, h.records, s.obj, rfl⟩
    exact .inr ⟨_, hstep, harrived.dispatchNt⟩
  · exact absurd hleaves hstay

lemma jump (hcode : Placed img filter)
    (hclass : ins.opcodeAnalyzer = .unconditionalDirectBranch) (limit : UInt64) :
    ∃ s', s.step img filter size limit = .inl s' ∧
      Onward img filter size limit ins.target ts s.tnt.content s' := by
  have hdescribes := h.describes hins
  simp only [Describes, hclass] at hdescribes
  obtain ⟨hheader, t, ht, hlink⟩ := hdescribes
  have htype : s.header.type = .unconditionalDirectBranch := by rw [header, hheader]
  have hlabel : s.label = .unconditionalBranch := by
    rw [h.label, htype]
    rfl
  by_cases hloop : s.entryPoint = limit ∧ s.tnt.isEmptyTntCache = true
  · -- with no bit left a loop may be reported
    have hempty := (TntCache.isEmptyTntCache_iff s.tnt).mp hloop.2
    let s' : LoopState := { s with
      lastObj := some s.obj
      obj := t
      dispatchType := .infiniteLoop
      label := .infiniteLoop }
    have hstep : s.step img filter size limit = .inl s' := by
      simp only [step, hlabel, ht, if_pos hloop, dispatchTableT, s']
    have hfinish : s'.step img filter size limit = s'.finish .infiniteLoop := rfl
    obtain ⟨e, he⟩ := quits_finish hfinish (by decide) h.records
    exact ⟨s', hstep, .limit hempty he⟩
  · have hstep : s.step img filter size limit = .inl (s.jumped t) := by
      simp only [step, hlabel, ht, if_neg hloop, h.dispatchType, htype, dispatchTableT,
        LoopState.jumped]
    refine ⟨s.jumped t, hstep, ?_⟩
    rcases hlink with rfl | hknown
    · -- the target is pending: after the check it is decoded
      have hpending : (s.jumped .pendingObj).header.type = .disassemblyPending := h.sound.pending
      have hlast : (s.dis.heap s.obj).cofi.targetAddr = ins.target := by rw [hheader]
      have hlive := h.sound.live a s.obj h.obj
      apply onward_branchCheck (s := s.jumped .pendingObj) (.inl rfl) rfl h.records
      rw [hpending]
      exact onward_disassembleT (s := (s.jumped .pendingObj).dispatch .disassemblyPending) hcode
        h.sound h.records rfl rfl hlive.ne_pending hlast
    · have harrived : Arrived img filter size ins.target ts (s.jumped t) :=
        ⟨h.sound, hknown.imp_right And.right, h.records, s.obj, rfl⟩
      exact harrived.check (.inl rfl)

lemma branch_header (hclass : ins.opcodeAnalyzer = .conditionalBranch) :
    s.header = ⟨a, ins.target, ins.size, .conditionalBranch⟩ ∧ s.label = .conditionalBranch := by
  have hdescribes := h.describes hins
  simp only [Describes, hclass] at hdescribes
  refine ⟨hdescribes, ?_⟩
  rw [h.label, header, hdescribes]
  rfl

lemma branch (hcode : Placed img filter)
    (hclass : ins.opcodeAnalyzer = .conditionalBranch) (hroom : ts.length < maxResultsPerCache - 1)
    {taken : Bool} (hbits : s.tnt.content = taken :: bits) (limit : UInt64) :
    ∃ s', s.step img filter size limit = .inl s' ∧
      Onward img filter size limit (ins.successor a taken)
        (ts ++ [(a, ins.successor a taken)]) bits s' := by
  obtain ⟨hheader, hlabel⟩ := h.branch_header hins hclass
  obtain ⟨tnt, hprocess, hcontent⟩ := TntCache.processTntCache_cons hbits
  obtain ⟨tmp, hadd, hrecords⟩ := h.records.add (by omega) (a, ins.successor a taken)
  have hbitsLeft : s.tmp.tntBits ≠ maxResultsPerCache - 1 := by
    rw [h.records.tntBits]
    omega
  have harrived := arrived_fetch hcode (s := { s with
    tmp := tmp
    tnt := tnt
    lastObj := some s.obj }) h.sound hrecords rfl (ins.successor a taken)
  have hfollow : s.follow img filter size tnt (ins.successor a taken) = some (LoopState.fetch img
      filter { s with tmp := tmp, tnt := tnt, lastObj := some s.obj } (ins.successor a taken)) := by
    rw [LoopState.follow, hheader, hadd]
    rfl
  generalize hf : LoopState.fetch img filter
    { s with tmp := tmp, tnt := tnt, lastObj := some s.obj } (ins.successor a taken) = f
    at harrived hfollow
  have htnt : f.tnt.content = bits := by
    rw [← hf]
    exact hcontent
  rw [← htnt]
  cases taken with
  | true =>
    have htarget : s.follow img filter size tnt ins.target = some f := hfollow
    have hstep : s.step img filter size limit = .inl f.dispatchT := by
      simp only [step, hlabel, doConditionalBranch, if_neg hbitsLeft, hprocess,
        if_true, hheader, htarget]
    exact ⟨_, hstep, harrived.dispatchT⟩
  | false =>
    have hnext : s.follow img filter size tnt (a + ins.size.toUInt64) = some f := hfollow
    have hstep : s.step img filter size limit = .inl f.dispatchNt := by
      simp only [step, hlabel, doConditionalBranch, if_neg hbitsLeft, hprocess,
        Bool.false_eq_true, if_false, hheader, hnext]
    exact ⟨_, hstep, harrived.dispatchNt⟩

lemma full (hclass : ins.opcodeAnalyzer = .conditionalBranch)
    (hfull : ts.length = maxResultsPerCache - 1) (limit : UInt64) :
    s.step img filter size limit = { s with entryPoint := a }.leave .success
      (some (s.tmp.newFromTraceletCacheTmp true)) := by
  obtain ⟨hheader, hlabel⟩ := h.branch_header hins hclass
  have hbits : s.tmp.tntBits = maxResultsPerCache - 1 := by rw [h.records.tntBits, hfull]
  simp only [step, hlabel, doConditionalBranch, if_pos hbits, hheader]

lemma empty (hclass : ins.opcodeAnalyzer = .conditionalBranch)
    (hroom : ts.length < maxResultsPerCache - 1) (hempty : s.tnt.content = []) (limit : UInt64) :
    s.step img filter size limit = s.finish .tntEmpty := by
  obtain ⟨-, hlabel⟩ := h.branch_header hins hclass
  have hbits : s.tmp.tntBits ≠ maxResultsPerCache - 1 := by
    rw [h.records.tntBits]
    omega
  simp only [step, hlabel, doConditionalBranch, if_neg hbits,
    TntCache.processTntCache_nil hempty]
  rfl

lemma stop (hclass : ins.opcodeAnalyzer.IsTransfer) (limit : UInt64) :
    s.step img filter size limit = s.finish .tipPending := by
  have hdescribes := h.describes hins
  rw [Describes] at hdescribes
  cases htype : ins.opcodeAnalyzer with
  | indirectBranch | nearRet | farTransfers =>
    simp only [htype] at hdescribes
    simp only [step, h.label, header, hdescribes, dispatchTable]
  | _ =>
    rw [htype] at hclass
    exact hclass.elim

end At

/-! ### Pieces -/

variable {o : PieceEnd}

variable (size) in
/-- The loop was left with `ts` recorded and `bits` outstanding, for the next piece or at the end. -/
structure Left (ts : List Transition) (o : PieceEnd) (bits : List Bool) (e : LoopExit) : Prop where
  records : Records size e.tmp ts
  content : e.tnt.content = bits
  tracelet : e.tracelet = some (e.tmp.newFromTraceletCacheTmp (e.result = .success))
  fault : e.result ≠ .pageFault
  cont : e.result = .success → o = .next e.entryPoint
  stop : e.result ≠ .success → ∀ b, o = .next b → bits = []

variable (img filter size limit) in
def Tracks (s : LoopState) (ts : List Transition) (o : PieceEnd) (bits : List Bool) : Prop :=
  ∃ e, Ends (step img filter size limit) s (some e) ∧ Left size ts o bits e

lemma Tracks.of_step {s' : LoopState} (h : Tracks img filter size limit s' ts o bits)
    (hstep : s.step img filter size limit = .inl s') : Tracks img filter size limit s ts o bits := by
  obtain ⟨e, he, hleft⟩ := h
  exact ⟨e, he.next hstep, hleft⟩

lemma Quits.tracks {e : LoopExit} (h : Quits img filter size limit ts bits s e)
    (hstop : ∀ b, o = .next b → bits = []) : Tracks img filter size limit s ts o bits := by
  refine ⟨e, h.ends, h.records, h.content, ?_, h.result.2, ?_, fun _ => hstop⟩
  · rw [h.tracelet, decide_eq_false h.result.1]
  · exact fun hsuccess => absurd hsuccess h.result.1

lemma Onward.tracks (h : Onward img filter size limit b ts bits s) {n : ℕ}
    {ts' : List Transition} (hrest : Piece img filter n b bits ts' o)
    (hgo : ∀ t, At img filter size b ts t → t.tnt.content = bits →
      Tracks img filter size limit t (ts ++ ts') o (bits.drop ts'.length)) :
    Tracks img filter size limit s (ts ++ ts') o (bits.drop ts'.length) := by
  cases h with
  | comes hvisits hat hbits =>
    obtain ⟨e, he, hleft⟩ := hgo _ hat hbits
    exact ⟨e, hvisits.ends he, hleft⟩
  | lost hlost => exact absurd hlost hrest.not_outside
  | limit hbits hquits =>
    subst hbits
    obtain rfl : ts' = [] := List.length_eq_zero_iff.mp (Nat.le_zero.mp hrest.length_le.2)
    rw [List.append_nil, List.length_nil, List.drop_zero]
    exact hquits.tracks fun _ _ => rfl

theorem Piece.tracks (hcode : Placed img filter) {n : ℕ}
    {ts' : List Transition} (h : Piece img filter n a bits ts' o)
    (hs : At img filter size a ts s) (hbits : s.tnt.content = bits)
    (hn : ts.length + n = maxResultsPerCache - 1) :
    Tracks img filter size limit s (ts ++ ts') o (bits.drop ts'.length) := by
  induction h generalizing s ts with
  | plain hins hclass hstay hrest ih =>
    subst hbits
    rcases hs.plain hins.1 hclass hstay limit with hnext | ⟨s', hstep, honward⟩
    · exact ih hnext rfl hn
    · exact (honward.tracks hrest fun t ht hcontent => ih ht hcontent hn).of_step hstep
  | jump hins hclass hrest ih =>
    subst hbits
    obtain ⟨s', hstep, honward⟩ := hs.jump hins.1 hcode hclass limit
    exact (honward.tracks hrest fun t ht hcontent => ih ht hcontent hn).of_step hstep
  | @branch n a ins taken bits ts' o hins hclass hrest ih =>
    obtain ⟨s', hstep, honward⟩ :=
      hs.branch hins.1 hcode hclass (by omega) hbits limit
    have hgo := honward.tracks hrest fun t ht hcontent => ih ht hcontent (by
      rw [List.length_append, List.length_singleton]
      omega)
    rw [List.append_assoc, List.singleton_append] at hgo
    exact hgo.of_step hstep
  | full hins hclass =>
    subst hbits
    refine ⟨_, .done (hs.full hins.1 hclass (by omega) limit), ?_⟩
    rw [List.append_nil]
    exact ⟨hs.records, rfl, rfl, fun hfault => (by cases hfault), fun _ => rfl,
      fun hne => absurd rfl hne⟩
  | empty hins hclass =>
    obtain ⟨e, he⟩ := quits_finish (hs.empty hins.1 hclass (by omega) hbits limit)
      (by decide) hs.records
    rw [hbits] at he
    rw [List.append_nil]
    exact he.tracks fun _ hb => by cases hb
  | stop hins hclass =>
    subst hbits
    obtain ⟨e, he⟩ := quits_finish (hs.stop hins.1 hclass limit) (by decide) hs.records
    rw [List.append_nil]
    exact he.tracks fun _ hb => by cases hb

end Loop

end Nyx.Pt
