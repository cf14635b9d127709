import Nyx.Pt.LoopInvariant
import Nyx.Pt.MapExactness

/-!
# The walk of the program

The walk that the bits of a trace stand for, without any list or cache, and the pieces it is cut
into by the number of transitions a tracelet holds.
-/

namespace Nyx.Pt

def CsInsn.successor (ins : CsInsn) (a : UInt64) (taken : Bool) : UInt64 :=
  if taken then ins.target else a + ins.size.toUInt64

/-- Where the walk is, the bits ahead and the transitions made. -/
structure WalkState where
  addr : UInt64
  bits : List Bool
  made : List Transition
  deriving DecidableEq

/-- One instruction of the walk. It ends where there is no code of a range, at a conditional branch
with no bit left, and at an instruction whose target is not in the code. -/
def WalkState.step (img : Image) (filter : AddrFilter) (s : WalkState) : WalkState ⊕ WalkState :=
  if ∀ i, ¬(filter i).contains s.addr then .inr s
  else
    match img s.addr with
    | .insn ins =>
      match ins.opcodeAnalyzer with
      | .noCofiType => .inl { s with addr := s.addr + ins.size.toUInt64 }
      | .unconditionalDirectBranch => .inl { s with addr := ins.target }
      | .conditionalBranch =>
        match s.bits with
        | [] => .inr s
        | taken :: bits =>
          let dst := ins.successor s.addr taken
          .inl ⟨dst, bits, s.made ++ [(s.addr, dst)]⟩
      | _ => .inr s
    | _ => .inr s

def CofiType.IsTransfer : CofiType → Prop
  | .indirectBranch | .nearRet | .farTransfers => True
  | _ => False

/-- How a piece of a walk ends: at a branch where the next piece begins, or at the end of the walk. -/
inductive PieceEnd where
  | next (addr : UInt64)
  | stop

section Pieces

variable (img : Image) (filter : AddrFilter)

def Coded (a : UInt64) (ins : CsInsn) : Prop := img a = .insn ins ∧ ∃ i, (filter i).contains a

/-- The part of the walk up to `n` transitions. -/
inductive Piece : ℕ → UInt64 → List Bool → List Transition → PieceEnd → Prop
  | plain {n : ℕ} {a : UInt64} {ins : CsInsn} {bits : List Bool} {ts : List Transition} {o : PieceEnd} :
    Coded img filter a ins → ins.opcodeAnalyzer = .noCofiType →
    ¬Leaves img filter a (a + ins.size.toUInt64) →
    Piece n (a + ins.size.toUInt64) bits ts o → Piece n a bits ts o
  | jump {n : ℕ} {a : UInt64} {ins : CsInsn} {bits : List Bool} {ts : List Transition} {o : PieceEnd} :
    Coded img filter a ins → ins.opcodeAnalyzer = .unconditionalDirectBranch →
    Piece n ins.target bits ts o → Piece n a bits ts o
  | branch {n : ℕ} {a : UInt64} {ins : CsInsn} {taken : Bool} {bits : List Bool}
    {ts : List Transition} {o : PieceEnd} :
    Coded img filter a ins → ins.opcodeAnalyzer = .conditionalBranch →
    Piece n (ins.successor a taken) bits ts o →
    Piece (n + 1) a (taken :: bits) ((a, ins.successor a taken) :: ts) o
  | full {a : UInt64} {ins : CsInsn} {bits : List Bool} :
    Coded img filter a ins → ins.opcodeAnalyzer = .conditionalBranch → Piece 0 a bits [] (.next a)
  | empty {n : ℕ} {a : UInt64} {ins : CsInsn} :
    Coded img filter a ins → ins.opcodeAnalyzer = .conditionalBranch → Piece (n + 1) a [] [] .stop
  | stop {n : ℕ} {a : UInt64} {ins : CsInsn} {bits : List Bool} :
    Coded img filter a ins → ins.opcodeAnalyzer.IsTransfer → Piece n a bits [] .stop

/-- What is asked of the addresses that a walk passes: code that does not run out of its range. -/
def Tracked (a : UInt64) : Prop :=
  ∃ ins, Coded img filter a ins ∧
    (ins.opcodeAnalyzer = .noCofiType → ¬Leaves img filter a (a + ins.size.toUInt64))

variable {img filter} {n : ℕ} {a : UInt64} {bits : List Bool} {ts : List Transition} {o : PieceEnd}

lemma Coded.not_outside {ins : CsInsn} (h : Coded img filter a ins) : ¬Outside img filter a := by
  obtain ⟨hins, i, hi⟩ := h
  rintro (hnot | hnot)
  · exact hnot ins hins
  · exact hnot i hi

namespace Piece

variable (h : Piece img filter n a bits ts o)
include h

lemma not_outside : ¬Outside img filter a := by
  cases h with
  | _ => exact Coded.not_outside (by assumption)

lemma length_le : ts.length ≤ n ∧ ts.length ≤ bits.length := by
  induction h with
  | plain _ _ _ _ ih => exact ih
  | jump _ _ _ ih => exact ih
  | branch _ _ _ ih =>
    simp only [List.length_cons]
    omega
  | _ => simp

lemma length_eq {b : UInt64} (ho : o = .next b) : ts.length = n := by
  induction h with
  | plain _ _ _ _ ih => exact ih ho
  | jump _ _ _ ih => exact ih ho
  | branch _ _ _ ih => rw [List.length_cons, ih ho]
  | full => rfl
  | _ => cases ho

lemma congr {bits' : List Bool}
    (hbits : bits'.take (n + 1) = bits.take (n + 1)) : Piece img filter n a bits' ts o := by
  induction h generalizing bits' with
  | plain hcode hclass hstay _ ih => exact .plain hcode hclass hstay (ih hbits)
  | jump hcode hclass _ ih => exact .jump hcode hclass (ih hbits)
  | branch hcode hclass _ ih =>
    cases bits' with
    | nil => simp at hbits
    | cons b bits' =>
      rw [List.take_succ_cons, List.take_succ_cons, List.cons.injEq] at hbits
      rw [hbits.1]
      exact .branch hcode hclass (ih hbits.2)
  | full hcode hclass => exact .full hcode hclass
  | empty hcode hclass =>
    obtain rfl : bits' = [] := by simpa using hbits
    exact .empty hcode hclass
  | stop hcode hclass => exact .stop hcode hclass

end Piece

namespace WalkState

variable {u v w : WalkState} {ins : CsInsn}

lemma step_of_coded (h : Coded img filter u.addr ins) :
    u.step img filter =
      match ins.opcodeAnalyzer with
      | .noCofiType => .inl { u with addr := u.addr + ins.size.toUInt64 }
      | .unconditionalDirectBranch => .inl { u with addr := ins.target }
      | .conditionalBranch =>
        match u.bits with
        | [] => .inr u
        | taken :: bits =>
          .inl ⟨ins.successor u.addr taken, bits,
            u.made ++ [(u.addr, ins.successor u.addr taken)]⟩
      | _ => .inr u := by
  obtain ⟨hins, i, hi⟩ := h
  have hin : ¬∀ i, ¬(filter i).contains u.addr := fun hnot => hnot i hi
  rw [step, if_neg hin, hins]

/-- What is left of the walk after a piece of `n` transitions. -/
structure Continues (img : Image) (filter : AddrFilter) (u : WalkState) (n : ℕ)
    (ts : List Transition) (w v : WalkState) : Prop where
  visits : Visits (step img filter) u v
  ends : Ends (step img filter) v w
  bits : v.bits = u.bits.drop n
  made : v.made = u.made ++ ts

lemma Continues.silent {u' : WalkState} {n : ℕ} {ts : List Transition}
    (h : Continues img filter u' n ts w v) (hstep : u.step img filter = .inl u')
    (hbits : u'.bits = u.bits) (hmade : u'.made = u.made) : Continues img filter u n ts w v :=
  ⟨h.visits.of_step hstep, h.ends, hbits ▸ h.bits, hmade ▸ h.made⟩

lemma Continues.branch {u' : WalkState} {n : ℕ} {ts : List Transition} {t : Transition} {taken : Bool}
    (h : Continues img filter u' n ts w v) (hstep : u.step img filter = .inl u')
    (hbits : u.bits = taken :: u'.bits) (hmade : u'.made = u.made ++ [t]) :
    Continues img filter u (n + 1) (t :: ts) w v := by
  refine ⟨h.visits.of_step hstep, h.ends, ?_, ?_⟩
  · rw [h.bits, hbits, List.drop_succ_cons]
  · rw [h.made, hmade, List.append_assoc, List.singleton_append]

variable (img filter) in
/-- The walk from `u` to `w` begins with a piece of `n` transitions, and goes on where that breaks
off. -/
def Begins (u w : WalkState) (n : ℕ) : Prop :=
  ∃ ts o, Piece img filter n u.addr u.bits ts o ∧
    (∀ b, o = .next b → ∃ v, v.addr = b ∧ Continues img filter u n ts w v) ∧
    (o = .stop → w.made = u.made ++ ts ∧ w.bits = u.bits.drop ts.length)

namespace Begins

variable {u' : WalkState}

lemma done {n : ℕ} (h : Piece img filter n u.addr u.bits [] .stop) :
    Begins img filter u u n :=
  ⟨[], .stop, h, fun b hb => (by cases hb), fun _ => by simp⟩

lemma silent {n : ℕ} (h : Begins img filter u' w n) (hstep : u.step img filter = .inl u')
    (hbits : u'.bits = u.bits) (hmade : u'.made = u.made)
    (hpiece : ∀ {ts o}, Piece img filter n u'.addr u'.bits ts o →
      Piece img filter n u.addr u.bits ts o) : Begins img filter u w n := by
  obtain ⟨ts, o, hrest, hnext, hstop⟩ := h
  refine ⟨ts, o, hpiece hrest, fun b hb => ?_, hbits ▸ hmade ▸ hstop⟩
  obtain ⟨v, hv, hcontinues⟩ := hnext b hb
  exact ⟨v, hv, hcontinues.silent hstep hbits hmade⟩

lemma branch {n : ℕ} (hcode : Coded img filter u.addr ins)
    (hclass : ins.opcodeAnalyzer = .conditionalBranch) {taken : Bool} {bits : List Bool}
    (hbits : u.bits = taken :: bits)
    (hstep : u.step img filter = .inl ⟨ins.successor u.addr taken, bits,
      u.made ++ [(u.addr, ins.successor u.addr taken)]⟩)
    (h : Begins img filter ⟨ins.successor u.addr taken, bits,
      u.made ++ [(u.addr, ins.successor u.addr taken)]⟩ w n) :
    Begins img filter u w (n + 1) := by
  obtain ⟨ts, o, hrest, hnext, hstop⟩ := h
  refine ⟨(u.addr, ins.successor u.addr taken) :: ts, o, ?_, fun b hb => ?_, fun ho => ?_⟩
  · rw [hbits]
    exact .branch hcode hclass hrest
  · obtain ⟨v, hv, hcontinues⟩ := hnext b hb
    exact ⟨v, hv, hcontinues.branch hstep hbits rfl⟩
  · obtain ⟨hmade, hleft⟩ := hstop ho
    rw [hmade, hleft, hbits, List.append_assoc, List.singleton_append]
    exact ⟨rfl, rfl⟩

end Begins

lemma begins {k : ℕ} (hends : iterate (step img filter) k u = some w)
    (htracked : ∀ v, Visits (step img filter) u v → Tracked img filter v.addr) (n : ℕ) :
    Begins img filter u w n := by
  induction k generalizing u n with
  | zero => cases hends
  | succ k ih =>
    obtain ⟨ins, hcode, hstay⟩ := htracked u .start
    have hstep := step_of_coded hcode
    have hgo : ∀ {u'}, u.step img filter = .inl u' → ∀ n, Begins img filter u' w n := by
      intro u' hu' n
      rw [iterate_of_inl hu'] at hends
      exact ih hends (fun v hv => htracked v (hv.of_step hu')) n
    have hdone : u.step img filter = .inr u → w = u := by
      intro hu
      rw [iterate_of_inr hu] at hends
      exact (Option.some.inj hends).symm
    have htransfer : u.step img filter = .inr u → ins.opcodeAnalyzer.IsTransfer →
        Begins img filter u w n := by
      intro hu hclass
      rw [hdone hu]
      exact .done (.stop hcode hclass)
    rcases ins.opcodeAnalyzer_cases with h | h | h | h | h | h
    · cases n with
      | zero =>
        refine ⟨[], .next u.addr, .full hcode h, fun b hb => ?_, fun hb => by cases hb⟩
        cases hb
        exact ⟨u, rfl, .start, ⟨k + 1, hends⟩, rfl, (List.append_nil _).symm⟩
      | succ n =>
        cases hbits : u.bits with
        | nil =>
          simp only [h, hbits] at hstep
          rw [hdone hstep]
          exact .done (hbits ▸ .empty hcode h)
        | cons taken bits =>
          simp only [h, hbits] at hstep
          exact .branch hcode h hbits hstep (hgo hstep n)
    · simp only [h] at hstep
      exact (hgo hstep n).silent hstep rfl rfl fun hrest => .jump hcode h hrest
    · exact htransfer (by simpa only [h] using hstep) (h ▸ trivial)
    · exact htransfer (by simpa only [h] using hstep) (h ▸ trivial)
    · exact htransfer (by simpa only [h] using hstep) (h ▸ trivial)
    · simp only [h] at hstep
      exact (hgo hstep n).silent hstep rfl rfl fun hrest => .plain hcode h (hstay h) hrest

end WalkState

end Pieces

end Nyx.Pt
