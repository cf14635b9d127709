import Nyx.Lib.Iterate
import Nyx.Fuzzer.RunTest

/-!
# The retry loop of `send_payload`

`send_payload` runs QEMU again for every page that the decoder misses, and gives up if a page is
reported again right after its dump. `Qemu` is anything that answers like it.
-/

namespace Nyx.Sync

/-- The other side of the control socket: a run, the result buffer after it, and a request to dump a
page in the next run. -/
structure Qemu (σ : Type) where
  run : σ → Option σ
  result : σ → AuxResult
  dumpPage : UInt64 → σ → σ

section Loop

variable {σ : Type}

/-- The body of the loop of `send_payload`, with `old_address`. -/
def sendPayloadStep (q : Qemu σ) (s : UInt64 × σ) : (UInt64 × σ) ⊕ Option σ :=
  match q.run s.2 with
  | none => .inr none
  | some t =>
    let result := q.result t
    if result.hprintf then .inl (s.1, t)
    else if result.success || result.crashFound || result.asanFound || result.payloadWriteFound then
      .inr (some t)
    else if result.pageNotFound then
      if s.1 = result.pageAddr then .inr (some t)
      else .inl (result.pageAddr, q.dumpPage result.pageAddr t)
    else .inl (s.1, t)

end Loop

/-- The process of the fuzzer, with the events that are to come. -/
def processQemu : Qemu (Session × List VmEvent) where
  run s := s.1.resume.run s.2
  result s := s.1.vm.result
  dumpPage addr s := (s.1.configure { s.1.vm.config with
    pageAddr := addr
    pageDumpMode := true
    changed := true }, s.2)

lemma Session.sendPayload_eq (n : ℕ) (oldAddress : UInt64) (s : Session) (es : List VmEvent) :
    s.sendPayload n oldAddress es =
      (iterate (sendPayloadStep processQemu) n (oldAddress, s, es)).join := by
  induction n generalizing oldAddress s es with
  | zero => rfl
  | succ n ih =>
    cases hrun : s.resume.run es with
    | none => simp [Session.sendPayload, iterate, sendPayloadStep, processQemu, hrun]
    | some next =>
      have hnext : processQemu.run (s, es) = some next := hrun
      simp only [Session.sendPayload, iterate, sendPayloadStep, hrun, hnext, ih]
      simp only [processQemu]
      split_ifs <;> simp_all

/-! ### A sequence of answers -/

def answersQemu (answers : ℕ → AuxResult) : Qemu ℕ where
  run k := some (k + 1)
  result k := answers (k - 1)
  dumpPage _ k := k

/-- No flag that ends the loop is set. -/
structure AuxResult.Unsuccessful (r : AuxResult) : Prop where
  hprintf : r.hprintf = false
  success : r.success = false
  crash : r.crashFound = false
  asan : r.asanFound = false
  payloadWrite : r.payloadWriteFound = false

/-- Every answer reports a missing page of `A`, or it is that of the dump that the answer before it
has led to. -/
structure Retries (A : Finset UInt64) (answers : ℕ → AuxResult) : Prop where
  unsuccessful : ∀ i, (answers i).Unsuccessful
  addr : ∀ i, (answers i).pageNotFound = true → (answers i).pageAddr ∈ A
  dump : ∀ i, (answers i).pageNotFound = false → ∃ j, i = j + 1 ∧ (answers j).pageNotFound = true

def lastReport (answers : ℕ → AuxResult) : ℕ → UInt64
  | 0 => 0
  | i + 1 => if (answers i).pageNotFound then (answers i).pageAddr else lastReport answers i

def Repeats (answers : ℕ → AuxResult) (i : ℕ) : Prop :=
  (answers i).pageNotFound = true ∧ (answers i).pageAddr = lastReport answers i

instance (answers : ℕ → AuxResult) (i : ℕ) : Decidable (Repeats answers i) :=
  inferInstanceAs (Decidable (_ ∧ _))

section Answers

variable {answers : ℕ → AuxResult}

lemma sendPayloadStep_answers {i : ℕ} (h : (answers i).Unsuccessful) :
    sendPayloadStep (answersQemu answers) (lastReport answers i, i) =
      if Repeats answers i then .inr (some (i + 1)) else .inl (lastReport answers (i + 1), i + 1) := by
  simp only [sendPayloadStep, answersQemu, Nat.add_sub_cancel, h.hprintf, h.success, h.crash, h.asan,
    h.payloadWrite, Bool.or_self, Bool.false_eq_true, if_false, lastReport, Repeats]
  by_cases hreport : (answers i).pageNotFound = true
  · simp only [hreport, if_true, true_and, eq_comm (a := lastReport answers i)]
  · simp [hreport]

lemma iterate_answers (h : ∀ i, (answers i).Unsuccessful) {n i : ℕ}
    (hnone : ∀ j < n, ¬Repeats answers (i + j)) :
    iterate (sendPayloadStep (answersQemu answers)) n (lastReport answers i, i) = none := by
  induction n generalizing i with
  | zero => rfl
  | succ n ih =>
    have hfirst : ¬Repeats answers i := hnone 0 (Nat.succ_pos n)
    have hstep := sendPayloadStep_answers (h i)
    rw [if_neg hfirst] at hstep
    rw [iterate_of_inl hstep]
    apply ih
    intro j hj
    rw [show i + 1 + j = i + (j + 1) by omega]
    exact hnone (j + 1) (by omega)

/-- For answers that only report missing pages of a finite set, `send_payload` returns if and only if
a report repeats the one before it. -/
theorem sendPayload_returns_iff {A : Finset UInt64} (h : Retries A answers) :
    (∃ n r, iterate (sendPayloadStep (answersQemu answers)) n (0, 0) = some r) ↔
      ∃ i, Repeats answers i := by
  constructor
  · rintro ⟨n, r, hr⟩
    by_contra hnone
    push Not at hnone
    have hgoing := iterate_answers h.unsuccessful (n := n) (i := 0) fun j _ => hnone (0 + j)
    rw [show lastReport answers 0 = 0 from rfl, hr] at hgoing
    cases hgoing
  · rintro ⟨i, hi⟩
    -- the loop comes to the first report that repeats the one before it
    let first := Nat.find ⟨i, hi⟩
    have hrepeats : Repeats answers first := Nat.find_spec ⟨i, hi⟩
    refine ⟨first + 1, some (first + 1), iterate_chain (f := fun k => (lastReport answers k, k))
      (s := first) (fun k hk => ?_) ?_ (Nat.lt_succ_self first)⟩
    · rw [sendPayloadStep_answers (h.unsuccessful k), if_neg (Nat.find_min ⟨i, hi⟩ hk)]
    · rw [sendPayloadStep_answers (h.unsuccessful first), if_pos hrepeats]

end Answers

def pageReport (addr : UInt64) : AuxResult :=
  { Vm.init.result with
    execDone := true
    pageNotFound := true
    pageAddr := addr }

def pageDumped : AuxResult := { Vm.init.result with execDone := true, reloaded := true }

def stuckAnswers (i : ℕ) : AuxResult := if i % 2 = 0 then pageReport 0x1000 else pageDumped

lemma retries_stuckAnswers : Retries {0x1000} stuckAnswers where
  unsuccessful i := by
    unfold stuckAnswers
    split <;> constructor <;> rfl
  addr i hi := by
    unfold stuckAnswers at hi ⊢
    split
    · simp [pageReport]
    · next hodd =>
      rw [if_neg hodd] at hi
      cases hi
  dump i hi := by
    unfold stuckAnswers at hi
    split at hi
    · cases hi
    · refine ⟨i - 1, by omega, ?_⟩
      rw [stuckAnswers, if_pos (by omega)]
      rfl

theorem sendPayload_returns_iff_stuck :
    ∃ n r, iterate (sendPayloadStep (answersQemu stuckAnswers)) n (0, 0) = some r :=
  (sendPayload_returns_iff retries_stuckAnswers).mpr ⟨2, by decide⟩

def turnAnswers (i : ℕ) : AuxResult :=
  if i % 2 = 1 then pageDumped
  else if i % 4 = 0 then pageReport 0x1000 else pageReport 0x2000

lemma retries_turnAnswers : Retries {0x1000, 0x2000} turnAnswers where
  unsuccessful i := by
    unfold turnAnswers
    split_ifs <;> constructor <;> rfl
  addr i hi := by
    unfold turnAnswers at hi ⊢
    split_ifs at hi ⊢
    · cases hi
    · simp [pageReport]
    · simp [pageReport]
  dump i hi := by
    unfold turnAnswers at hi
    split_ifs at hi with hodd hfour
    · refine ⟨i - 1, by omega, ?_⟩
      unfold turnAnswers
      split_ifs
      · omega
      · rfl
      · rfl
    · cases hi
    · cases hi

lemma lastReport_turnAnswers (i : ℕ) : lastReport turnAnswers (i + 1) =
    if i % 4 < 2 then 0x1000 else 0x2000 := by
  induction i with
  | zero => rfl
  | succ i ih =>
    rw [lastReport, ih]
    unfold turnAnswers
    split_ifs <;> first | rfl | omega | simp_all [pageDumped, pageReport, Vm.init]

theorem not_sendPayload_returns_turn :
    Retries {0x1000, 0x2000} turnAnswers ∧
      ∀ n, iterate (sendPayloadStep (answersQemu turnAnswers)) n (0, 0) = none := by
  refine ⟨retries_turnAnswers, fun n => ?_⟩
  have hnever : ∀ i, ¬Repeats turnAnswers i := by
    rintro i ⟨hreport, haddr⟩
    cases i with
    | zero => exact absurd haddr (by decide)
    | succ i =>
      rw [lastReport_turnAnswers] at haddr
      unfold turnAnswers at hreport haddr
      split_ifs at hreport haddr <;> first | omega | simp [pageDumped, pageReport, Vm.init] at *
  exact iterate_answers retries_turnAnswers.unsuccessful (i := 0) fun j _ => hnever (0 + j)

end Nyx.Sync
