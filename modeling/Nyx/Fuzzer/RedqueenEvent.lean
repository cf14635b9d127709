import Nyx.Lib.Regex
import Nyx.Qemu.RedqueenReport

/-!
# Reading redqueen reports

The fuzzer reads the result file line by line with one regular expression. It knows the kinds `CMP`,
`SUB` and `STR`, while the hooks also write `LEA`.
-/

namespace Nyx.Redqueen

inductive RedqueenBPType where
  | str | cmp | sub
  deriving DecidableEq, Repr

def RedqueenBPType.text : RedqueenBPType → List Char
  | str => ['S', 'T', 'R']
  | cmp => ['C', 'M', 'P']
  | sub => ['S', 'U', 'B']

inductive ReadPanic where
  /-- `unknown reqdueen bp type {}` -/
  | unknownType (data : List Char)
  /-- `couldn't parse redqueen line {}` -/
  | couldNotParse (line : List Char)
  | unwrapNone
  | unwrapErr
  deriving DecidableEq, Repr

/-- A line of the result file, parsed. -/
structure RedqueenEvent where
  addr : UInt64
  bpType : RedqueenBPType
  lhs : List UInt8
  rhs : List UInt8
  imm : Bool
  deriving DecidableEq, Repr

def RedqueenBPType.new (data : List Char) : Except ReadPanic RedqueenBPType :=
  if data = ['S', 'T', 'R'] then .ok .str
  else if data = ['C', 'M', 'P'] then .ok .cmp
  else if data = ['S', 'U', 'B'] then .ok .sub
  else .error (.unknownType data)

/-- `\s`: the characters with the property `White_Space`. -/
def isSpace (c : Char) : Bool :=
  (9 ≤ c.toNat && c.toNat ≤ 13) || c.toNat == 32 || c.toNat == 0x85 || c.toNat == 0xa0 ||
    c.toNat == 0x1680 || (0x2000 ≤ c.toNat && c.toNat ≤ 0x200a) || c.toNat == 0x2028 ||
    c.toNat == 0x2029 || c.toNat == 0x202f || c.toNat == 0x205f || c.toNat == 0x3000

/-- `\d`, of which only the digits of `printf` occur. -/
def isDigit (c : Char) : Bool := 48 ≤ c.toNat && c.toNat ≤ 57

def typeRegex : Regex :=
  .alt (.lit ['C', 'M', 'P']) (.alt (.lit ['S', 'U', 'B']) (.lit ['S', 'T', 'R']))

/-- `([0-9a-fA-F]+)\s+(CMP|SUB|STR)\s+(\d+)\s+([0-9a-fA-F]+)-([0-9a-fA-F]+)(\sIMM)?` -/
def eventRegex : Regex :=
  .seq (.group 1 (.many isHex)) <| .seq (.many isSpace) <| .seq (.group 2 typeRegex) <|
    .seq (.many isSpace) <| .seq (.group 3 (.many isDigit)) <| .seq (.many isSpace) <|
    .seq (.group 4 (.many isHex)) <| .seq (.cls (· == '-')) <| .seq (.group 5 (.many isHex)) <|
    .opt (.group 6 (.seq (.cls isSpace) (.lit ['I', 'M', 'M'])))

def fromStrRadix16 (s : List Char) : Option UInt64 :=
  (readHex s).bind fun n => if n < 2 ^ 64 then some (UInt64.ofNat n) else none

def unwrap {α : Type} (e : ReadPanic) : Option α → Except ReadPanic α
  | some a => .ok a
  | none => .error e

namespace RedqueenEvent

def new (line : List Char) : Except ReadPanic RedqueenEvent :=
  match eventRegex.captures line with
  | none => .error (.couldNotParse line)
  | some mat => do
    let addrS ← unwrap .unwrapNone (mat.lookup 1)
    let typeS ← unwrap .unwrapNone (mat.lookup 2)
    let lhs ← unwrap .unwrapNone (mat.lookup 4)
    let rhs ← unwrap .unwrapNone (mat.lookup 5)
    let imm := (mat.lookup 6).isSome
    let addr ← unwrap .unwrapErr (fromStrRadix16 addrS)
    let bpType ← RedqueenBPType.new typeS
    let lhs ← unwrap .unwrapErr (decodeHex lhs)
    let rhs ← unwrap .unwrapErr (decodeHex rhs)
    pure ⟨addr, bpType, lhs, rhs, imm⟩

end RedqueenEvent

/-- `str::lines` of a text without carriage returns. -/
def lines : List Char → List (List Char)
  | [] => []
  | '\n' :: s => [] :: lines s
  | c :: s =>
    match lines s with
    | [] => [[c]]
    | l :: ls => (c :: l) :: ls

def parseRedqueenData (data : List Char) : Except ReadPanic (List RedqueenEvent) :=
  (lines data).mapM RedqueenEvent.new

/-! ### The regular expression on a line -/

lemma isSpace_of_isHex {c : Char} (h : isHex c) : isSpace c = false := by
  rw [isHex_iff] at h
  simp only [isSpace, Bool.or_eq_false_iff, Bool.and_eq_false_iff, decide_eq_false_iff_not,
    beq_eq_false_iff_ne]
  omega

lemma prefers_type (t : RedqueenBPType) (r : List Char) :
    Regex.Prefers (.group 2 typeRegex) (t.text ++ r) r [(2, t.text)] := by
  apply Regex.Prefers.group
  cases t with
  | cmp => exact (Regex.prefers_lit ['C', 'M', 'P'] r).alt_left
  | sub => exact (Regex.prefers_lit ['S', 'U', 'B'] r).alt_left.alt_right rfl
  | str => exact ((Regex.prefers_lit ['S', 'T', 'R'] r).alt_right rfl).alt_right rfl

lemma prefers_run {i : ℕ} {p : Char → Bool} {w r : List Char} (hw : w ≠ []) (hall : ∀ c ∈ w, p c)
    (hr : ∀ c ∈ r.head?, p c = false) : Regex.Prefers (.group i (.many p)) (w ++ r) r [(i, w)] :=
  (Regex.prefers_many hw hall hr).group

def immText (isImm : Bool) : List Char := if isImm then [' ', 'I', 'M', 'M'] else []

def immCaptures (isImm : Bool) : Regex.Captures :=
  if isImm then [(6, [' ', 'I', 'M', 'M'])] else []

lemma prefers_imm (isImm : Bool) :
    Regex.Prefers (.opt (.group 6 (.seq (.cls isSpace) (.lit ['I', 'M', 'M'])))) (immText isImm) []
      (immCaptures isImm) := by
  cases isImm with
  | true => rfl
  | false => rfl

lemma forall_of_all {p : Char → Bool} {b : Bool} {w : List Char}
    (h : (w.all fun c => p c == b) = true) : ∀ c ∈ w, p c = b :=
  fun c hc => eq_of_beq (List.all_eq_true.mp h c hc)

lemma forall_head_append {q : Char → Prop} {w : List Char} (r : List Char) (hw : w ≠ [])
    (h : ∀ c ∈ w, q c) : ∀ c ∈ (w ++ r).head?, q c := by
  intro c hc
  cases w with
  | nil => exact absurd rfl hw
  | cons d w =>
    obtain rfl : d = c := by simpa using hc
    exact h d List.mem_cons_self

lemma captures_line {addr space bits lhs rhs : List Char} (t : RedqueenBPType) (isImm : Bool)
    (haddr : addr ≠ []) (hexAddr : ∀ c ∈ addr, isHex c)
    (hspace : space ≠ []) (allSpace : ∀ c ∈ space, isSpace c)
    (hbits : bits ≠ []) (allBits : ∀ c ∈ bits, isDigit c)
    (hlhs : lhs ≠ []) (hexLhs : ∀ c ∈ lhs, isHex c)
    (hrhs : rhs ≠ []) (hexRhs : ∀ c ∈ rhs, isHex c) :
    eventRegex.captures (addr ++ (space ++ (t.text ++ ([' '] ++ (bits ++ (['\t'] ++ (lhs ++
      '-' :: (rhs ++ immText isImm)))))))) =
      some ([(1, addr), (2, t.text), (3, bits), (4, lhs), (5, rhs)] ++ immCaptures isImm) := by
  have hexSpace : ∀ c ∈ space, isHex c = false := by
    intro c hc
    have hs := allSpace c hc
    contrapose! hs
    rw [isSpace_of_isHex (by simpa using hs)]
    decide
  have spaceBits : ∀ c ∈ bits, isSpace c = false := by
    intro c hc
    apply isSpace_of_isHex
    have hd := allBits c hc
    simp only [isDigit, Bool.and_eq_true, decide_eq_true_eq] at hd
    exact isHex_iff.mpr (.inl hd)
  have spaceType : ∀ c ∈ t.text, isSpace c = false := forall_of_all (by cases t <;> decide)
  have typeText : t.text ≠ [] := by cases t <;> decide
  have hexImm : ∀ c ∈ (immText isImm).head?, isHex c = false := by
    cases isImm with
    | true => rintro c ⟨⟩; decide
    | false => rintro c ⟨⟩
  have hone (c : Char) (hc : isSpace c = true) : ∀ d ∈ [c], isSpace d = true := by
    intro d hd
    rwa [List.mem_singleton.mp hd]
  have hall := (prefers_run (i := 1) haddr hexAddr (forall_head_append _ hspace hexSpace)).seq <|
    (Regex.prefers_many hspace allSpace (forall_head_append _ typeText spaceType)).seq <|
    (prefers_type t _).seq <|
    (Regex.prefers_many (List.cons_ne_nil ' ' []) (hone ' ' (by decide))
      (forall_head_append _ hbits spaceBits)).seq <|
    (prefers_run (i := 3) (r := ['\t'] ++ (lhs ++ '-' :: (rhs ++ immText isImm))) hbits allBits
      (forall_head_append _ (List.cons_ne_nil '\t' []) (forall_of_all (by decide)))).seq <|
    (Regex.prefers_many (List.cons_ne_nil '\t' []) (hone '\t' (by decide))
      (forall_head_append _ hlhs fun c hc => isSpace_of_isHex (hexLhs c hc))).seq <|
    (prefers_run (i := 4) (r := '-' :: (rhs ++ immText isImm)) hlhs hexLhs
      (by rintro c ⟨⟩; decide)).seq <|
    (Regex.prefers_cls (p := (· == '-')) rfl).seq <|
    (prefers_run (i := 5) hrhs hexRhs hexImm).seq (prefers_imm isImm)
  exact hall.captures

lemma new_of_captures {line addr bits lhs rhs : List Char} {t : RedqueenBPType} {isImm : Bool}
    (h : eventRegex.captures line =
      some ([(1, addr), (2, t.text), (3, bits), (4, lhs), (5, rhs)] ++ immCaptures isImm))
    {a : UInt64} {l r : List UInt8} (ha : fromStrRadix16 addr = some a)
    (hl : decodeHex lhs = some l) (hr : decodeHex rhs = some r) :
    RedqueenEvent.new line = .ok ⟨a, t, l, r, isImm⟩ := by
  have htype : RedqueenBPType.new t.text = .ok t := by cases t <;> rfl
  have himm : ((immCaptures isImm).lookup 6).isSome = isImm := by cases isImm <;> rfl
  unfold RedqueenEvent.new
  rw [h]
  simp only [List.cons_append, List.nil_append, List.lookup_cons, Nat.reduceBEq, unwrap,
    except_ok_bind, ha, htype, hl, hr, himm]
  rfl

lemma fromStrRadix16_printHex (a : UInt64) :
    fromStrRadix16 (printHex false 1 a.toNat) = some a := by
  have ha := a.toNat_lt
  rw [fromStrRadix16, readHex_printHex false 1 ha, Option.bind_some, if_pos ha, UInt64.ofNat_toNat]

lemma toNat_and_mask (v : UInt64) (size : OpSize) :
    (v &&& size.mask).toNat = v.toNat % 256 ^ size.bytes := by
  cases size with
  | b8 => exact Nat.and_two_pow_sub_one_eq_mod v.toNat 8
  | b16 => exact Nat.and_two_pow_sub_one_eq_mod v.toNat 16
  | b32 => exact Nat.and_two_pow_sub_one_eq_mod v.toNat 32
  | b64 => exact Nat.and_two_pow_sub_one_eq_mod v.toNat 64

lemma decodeHex_operand (v : UInt64) (size : OpSize) :
    decodeHex (printHex true (2 * size.bytes) (v &&& size.mask).toNat) =
      some (toLeBytes size.bytes v.toNat).reverse := by
  have hwidth : 2 * size.bytes ≤ 16 := by cases size <;> decide
  have hlt : v.toNat % 256 ^ size.bytes < 16 ^ (2 * size.bytes) := by
    rw [pow_mul]
    exact Nat.mod_lt _ (by positivity)
  rw [toNat_and_mask, printHex_eq true hwidth hlt, decodeHex_hexDigits, toLeBytes_mod]

/-- The event says what the report says. -/
structure RedqueenEvent.Describes (e : RedqueenEvent) (r : RedqueenReport) : Prop where
  addr : e.addr = r.addr
  kind : e.bpType.text = r.kind
  lhs : e.lhs = r.lhs
  rhs : e.rhs = r.rhs
  imm : e.imm = r.isImm

lemma captures_comp {type : CompType} {t : RedqueenBPType} (ht : type.text = t.text)
    (addr val1 val2 : UInt64) (size : OpSize) (isImm : Bool) :
    eventRegex.captures (RedqueenReport.comp addr type val1 val2 size isImm).line =
      some ([(1, printHex false 1 addr.toNat), (2, t.text), (3, size.text),
        (4, printHex true (2 * size.bytes) (val1 &&& size.mask).toNat),
        (5, printHex true (2 * size.bytes) (val2 &&& size.mask).toNat)] ++ immCaptures isImm) := by
  have hwidth : 0 < 2 * size.bytes := by cases size <;> decide
  have hline := captures_line t isImm (printHex_ne_nil false Nat.one_pos addr.toNat)
    (fun c hc => isHex_printHex hc) (List.cons_ne_nil '\t' ['\t', ' '])
    (forall_of_all (by decide)) (show size.text ≠ [] by cases size <;> decide)
    (forall_of_all (by cases size <;> decide))
    (printHex_ne_nil true hwidth (val1 &&& size.mask).toNat) (fun c hc => isHex_printHex hc)
    (printHex_ne_nil true hwidth (val2 &&& size.mask).toNat) (fun c hc => isHex_printHex hc)
  rw [← hline]
  simp only [RedqueenReport.line, RedqueenReport.operandsText, ht, immText, List.append_assoc,
    List.cons_append, List.nil_append]

lemma captures_strcmp (rip : UInt64)
    (buf1 buf2 : {bs : List UInt8 // bs.length = REDQUEEN_MAX_STRCMP_LEN}) :
    eventRegex.captures (RedqueenReport.strcmp rip buf1 buf2).line =
      some [(1, printHex false 1 rip.toNat), (2, ['S', 'T', 'R']), (3, ['5', '1', '2']),
        (4, buf1.1.flatMap fun b => printHex true 2 b.toNat),
        (5, buf2.1.flatMap fun b => printHex true 2 b.toNat)] := by
  have hhex (bs : List UInt8) : ∀ c ∈ bs.flatMap (fun b => printHex true 2 b.toNat),
      isHex c = true := by
    intro c hc
    obtain ⟨b, -, hc⟩ := List.mem_flatMap.mp hc
    exact isHex_printHex hc
  have hne (buf : {bs : List UInt8 // bs.length = REDQUEEN_MAX_STRCMP_LEN}) :
      buf.1.flatMap (fun b => printHex true 2 b.toNat) ≠ [] := by
    obtain ⟨bs, hlen⟩ := buf
    cases bs with
    | nil => cases hlen
    | cons b bs => simp [printHex_ne_nil]
  have hline := captures_line .str false (printHex_ne_nil false Nat.one_pos rip.toNat)
    (fun c hc => isHex_printHex hc) (List.cons_ne_nil '\t' ['\t']) (forall_of_all (by decide))
    (List.cons_ne_nil '5' ['1', '2']) (forall_of_all (by decide)) (hne buf1) (hhex buf1.1) (hne buf2)
    (hhex buf2.1)
  refine Eq.trans ?_ hline
  simp only [RedqueenReport.line, RedqueenReport.stringsText, RedqueenBPType.text, immText,
    List.append_assoc, List.cons_append, List.nil_append, List.append_nil, Bool.false_eq_true,
    if_false]

lemma mem_of_attempts {s : List Char} {m : List Char × Regex.Captures}
    (h : m ∈ eventRegex.attempts s) : 'P' ∈ s ∨ 'S' ∈ s := by
  obtain ⟨m₁, h₁, _, h⟩ := Regex.mem_attempts_seq h
  obtain ⟨m₂, h₂, _, h⟩ := Regex.mem_attempts_seq h
  obtain ⟨m₃, h₃, -⟩ := Regex.mem_attempts_seq h
  have hsuffix : m₂.1 <:+ s :=
    (Regex.suffix_of_mem_attempts h₂).trans (Regex.suffix_of_mem_attempts h₁)
  obtain ⟨m₄, h₄, -⟩ := List.mem_map.mp h₃
  rcases List.mem_append.mp h₄ with h₄ | h₄
  · left
    apply hsuffix.subset
    rw [Regex.eq_append_of_mem_lit h₄]
    simp
  · right
    apply hsuffix.subset
    rcases List.mem_append.mp h₄ with h₄ | h₄
    · rw [Regex.eq_append_of_mem_lit h₄]
      simp
    · rw [Regex.eq_append_of_mem_lit h₄]
      simp

lemma captures_lea (addr val1 val2 : UInt64) (size : OpSize) (isImm : Bool) :
    eventRegex.captures (RedqueenReport.comp addr .lea val1 val2 size isImm).line = none := by
  have hhex {upper : Bool} {width n : ℕ} :
      'P' ∉ printHex upper width n ∧ 'S' ∉ printHex upper width n :=
    ⟨fun h => absurd (isHex_printHex h) (by decide), fun h => absurd (isHex_printHex h) (by decide)⟩
  have hsize : 'P' ∉ size.text ∧ 'S' ∉ size.text := by cases size <;> decide
  have hline : 'P' ∉ (RedqueenReport.comp addr .lea val1 val2 size isImm).line ∧
      'S' ∉ (RedqueenReport.comp addr .lea val1 val2 size isImm).line := by
    simp only [RedqueenReport.line, RedqueenReport.operandsText, CompType.text]
    cases isImm <;> simp [hhex, hsize]
  apply Regex.captures_eq_none
  intro r hr
  rw [List.eq_nil_iff_forall_not_mem]
  intro m hm
  rcases mem_of_attempts hm with h | h
  · exact hline.1 (hr.subset h)
  · exact hline.2 (hr.subset h)

lemma new_comp {type : CompType} {t : RedqueenBPType} (ht : type.text = t.text)
    (addr val1 val2 : UInt64) (size : OpSize) (isImm : Bool) :
    RedqueenEvent.new (RedqueenReport.comp addr type val1 val2 size isImm).line =
      .ok ⟨addr, t, (toLeBytes size.bytes val1.toNat).reverse,
        (toLeBytes size.bytes val2.toNat).reverse, isImm⟩ :=
  new_of_captures (captures_comp ht addr val1 val2 size isImm) (fromStrRadix16_printHex addr)
    (decodeHex_operand val1 size) (decodeHex_operand val2 size)

lemma new_strcmp (rip : UInt64)
    (buf1 buf2 : {bs : List UInt8 // bs.length = REDQUEEN_MAX_STRCMP_LEN}) :
    RedqueenEvent.new (RedqueenReport.strcmp rip buf1 buf2).line =
      .ok ⟨rip, .str, buf1.1, buf2.1, false⟩ :=
  new_of_captures (t := .str) (captures_strcmp rip buf1 buf2) (fromStrRadix16_printHex rip)
    (decodeHex_flatMap true buf1.1) (decodeHex_flatMap true buf2.1)

lemma new_lea (addr val1 val2 : UInt64) (size : OpSize) (isImm : Bool) :
    RedqueenEvent.new (RedqueenReport.comp addr .lea val1 val2 size isImm).line =
      .error (.couldNotParse (RedqueenReport.comp addr .lea val1 val2 size isImm).line) := by
  rw [RedqueenEvent.new, captures_lea]

lemma exists_describes {r : RedqueenReport} (h : r.kind ≠ ['L', 'E', 'A']) :
    ∃ e, RedqueenEvent.new r.line = .ok e ∧ e.Describes r := by
  cases r with
  | comp addr type val1 val2 size isImm =>
    cases type with
    | cmp => exact ⟨_, new_comp (t := .cmp) rfl addr val1 val2 size isImm, rfl, rfl, rfl, rfl, rfl⟩
    | sub => exact ⟨_, new_comp (t := .sub) rfl addr val1 val2 size isImm, rfl, rfl, rfl, rfl, rfl⟩
    | lea => exact absurd rfl h
  | strcmp rip buf1 buf2 => exact ⟨_, new_strcmp rip buf1 buf2, rfl, rfl, rfl, rfl, rfl⟩

lemma new_eq_error {r : RedqueenReport} (h : r.kind = ['L', 'E', 'A']) :
    RedqueenEvent.new r.line = .error (.couldNotParse r.line) := by
  cases r with
  | comp addr type val1 val2 size isImm =>
    cases type with
    | cmp => exact absurd (show CompType.cmp.text = ['L', 'E', 'A'] from h) (by decide)
    | sub => exact absurd (show CompType.sub.text = ['L', 'E', 'A'] from h) (by decide)
    | lea => exact new_lea addr val1 val2 size isImm
  | strcmp rip buf1 buf2 =>
    exact absurd (show ['S', 'T', 'R'] = ['L', 'E', 'A'] from h) (by decide)

/-- A line is read back as the event it reports exactly if it is not of the kind `LEA`. -/
theorem redqueenEvent_new_iff (r : RedqueenReport) :
    (∃ e, RedqueenEvent.new r.line = .ok e ∧ e.Describes r) ↔ r.kind ≠ ['L', 'E', 'A'] := by
  constructor
  · rintro ⟨e, he, -⟩ hkind
    rw [new_eq_error hkind] at he
    cases he
  · exact exists_describes

def zeroEnv : Env where
  regs _ := 0
  eip := 0x401000
  segBase _ := 0
  mapped _ := false
  read _ n := (false, ⟨List.replicate n 0, List.length_replicate⟩)
  wordWidth := 64
  whitelist := false

def leaInsn : Insn :=
  ⟨.lea, 0x401000, [.reg (.r64 0), .mem ⟨none, none, some (.r64 3), 1, -0x1000, 8⟩]⟩

theorem redqueenEvent_new_lea :
    (isInteresstingLeaAt leaInsn).run [] = (.ok true, []) ∧
    ∃ r, (handleHookRedqueenLight zeroEnv leaInsn).run [] = (.ok (), [r]) ∧
      r.line = "401000\t\t LEA 64\t0000000000000000-0000000000001000".toList ∧
      RedqueenEvent.new r.line = .error (.couldNotParse r.line) := by
  refine ⟨rfl, .comp 0x401000 .lea 0 0x1000 .b64 false, rfl, ?_, ?_⟩
  · decide +kernel
  · decide +kernel

/-! ### The result file -/

lemma newline_notMem_line (r : RedqueenReport) : '\n' ∉ r.line := by
  have hhex {upper : Bool} {width n : ℕ} : '\n' ∉ printHex upper width n :=
    fun h => absurd (isHex_printHex h) (by decide)
  cases r with
  | comp addr type val1 val2 size isImm =>
    have htype : '\n' ∉ type.text := by cases type <;> decide
    have hsize : '\n' ∉ size.text := by cases size <;> decide
    cases isImm <;> simp [RedqueenReport.line, RedqueenReport.operandsText, hhex, htype, hsize]
  | strcmp rip buf1 buf2 => simp [RedqueenReport.line, RedqueenReport.stringsText, hhex]

lemma lines_append {l : List Char} (hl : '\n' ∉ l) (s : List Char) :
    lines (l ++ '\n' :: s) = l :: lines s := by
  induction l with
  | nil => rfl
  | cons c l ih =>
    rw [List.mem_cons, not_or] at hl
    rw [List.cons_append, lines.eq_3 _ _ fun h => hl.1 h.symm, ih hl.2]

lemma length_operands (r : RedqueenReport) : 0 < r.lhs.length ∧ r.lhs.length = r.rhs.length := by
  cases r with
  | comp addr type val1 val2 size isImm =>
    simp only [RedqueenReport.lhs, RedqueenReport.rhs, List.length_reverse, length_toLeBytes]
    exact ⟨by cases size <;> decide, trivial⟩
  | strcmp rip buf1 buf2 => exact ⟨buf1.2 ▸ by decide, buf1.2.trans buf2.2.symm⟩

lemma parseRedqueenData_text (rs : List RedqueenReport) :
    parseRedqueenData (rs.flatMap RedqueenReport.text) =
      rs.mapM fun r => RedqueenEvent.new r.line := by
  have hlines : lines (rs.flatMap RedqueenReport.text) = rs.map RedqueenReport.line := by
    induction rs with
    | nil => rfl
    | cons r rs ih =>
      rw [List.flatMap_cons, RedqueenReport.text, List.append_assoc, List.map_cons, ← ih]
      exact lines_append (newline_notMem_line r) _
  rw [parseRedqueenData, hlines, List.mapM_map]
  rfl

lemma exists_events {rs : List RedqueenReport} (h : ∀ r ∈ rs, r.kind ≠ ['L', 'E', 'A']) :
    ∃ es, (rs.mapM fun r => RedqueenEvent.new r.line) = .ok es ∧
      List.Forall₂ RedqueenEvent.Describes es rs ∧
        ∀ ev ∈ es, 0 < ev.lhs.length ∧ ev.lhs.length = ev.rhs.length := by
  induction rs with
  | nil => exact ⟨[], rfl, .nil, by simp⟩
  | cons r rs ih =>
    obtain ⟨hkind, hrest⟩ := List.forall_mem_cons.mp h
    obtain ⟨e, he, hd⟩ := exists_describes hkind
    obtain ⟨es, hes, hdescribes, hlength⟩ := ih hrest
    refine ⟨e :: es, by rw [List.mapM_cons, he, hes]; rfl, .cons hd hdescribes, ?_⟩
    rw [List.forall_mem_cons, hd.lhs, hd.rhs]
    exact ⟨length_operands r, hlength⟩

/-- The first line of the kind `LEA` is the one that is reported. -/
lemma exists_parse_error {rs : List RedqueenReport} (h : ∃ r ∈ rs, r.kind = ['L', 'E', 'A']) :
    ∃ r ∈ rs, (rs.mapM fun r => RedqueenEvent.new r.line) = .error (.couldNotParse r.line) := by
  induction rs with
  | nil => simp at h
  | cons r rs ih =>
    rw [List.mapM_cons]
    by_cases hkind : r.kind = ['L', 'E', 'A']
    · exact ⟨r, List.mem_cons_self, by rw [new_eq_error hkind]; rfl⟩
    · obtain ⟨e, he, -⟩ := exists_describes hkind
      rw [List.exists_mem_cons_iff, or_iff_right hkind] at h
      obtain ⟨r', hr', herror⟩ := ih h
      exact ⟨r', List.mem_cons_of_mem r hr', by rw [he, herror]; rfl⟩

/-- The file of a session is read back, and its events can be made into a dictionary, exactly if no
line in it is of the kind `LEA`. Otherwise the parser panics at such a line. -/
theorem parseRedqueenData_iff (rs : List RedqueenReport) :
    ((∃ es, parseRedqueenData (rs.flatMap RedqueenReport.text) = .ok es ∧
      List.Forall₂ RedqueenEvent.Describes es rs ∧
        ∀ ev ∈ es, 0 < ev.lhs.length ∧ ev.lhs.length = ev.rhs.length) ↔
      ∀ r ∈ rs, r.kind ≠ ['L', 'E', 'A']) ∧
    ((∃ r ∈ rs, r.kind = ['L', 'E', 'A']) → ∃ r ∈ rs,
      parseRedqueenData (rs.flatMap RedqueenReport.text) = .error (.couldNotParse r.line)) := by
  rw [parseRedqueenData_text]
  refine ⟨⟨?_, exists_events⟩, exists_parse_error⟩
  rintro ⟨es, hes, -⟩ r hr hkind
  obtain ⟨r', -, herror⟩ := exists_parse_error ⟨r, hr, hkind⟩
  rw [herror] at hes
  cases hes

end Nyx.Redqueen
