import Nyx.Lib.Bits
import Nyx.Lib.LittleEndian
import Nyx.Pt.PacketTrace

/-!
# Compressed addresses

The processor leaves out the upper part of an address that it shares with the address before, which
`PSB` and `OVF` make it forget. `last_tip` of the decoder is not cleared by a `PSB`.
-/

namespace Nyx.Pt

/-! ### The encoder -/

def Canonical (addr : UInt64) : Prop := addr.toNat < 2 ^ 47 ∨ 2 ^ 64 - 2 ^ 47 ≤ addr.toNat

instance (addr : UInt64) : Decidable (Canonical addr) := inferInstanceAs (Decidable (_ ∨ _))

inductive IpKind where
  | tip
  | pge
  | pgd
  | fup
  deriving DecidableEq

def IpKind.opcode : IpKind → ℕ
  | tip => 0x0D
  | pge => 0x11
  | pgd => 0x01
  | fup => 0x1D

def IpKind.label : IpKind → PtLabel
  | tip => .tip
  | pge => .tipPge
  | pgd => .tipPgd
  | fup => .tipFup

inductive IpBytes where
  | one
  | two
  | three
  deriving DecidableEq

def IpBytes.groups : IpBytes → ℕ
  | one => 1
  | two => 2
  | three => 3

/-- An address packet, before compression. -/
structure IpPacket where
  kind : IpKind
  ipBytes : IpBytes
  addr : UInt64
  canonical : Canonical addr

namespace IpPacket

def encode (q : IpPacket) : List UInt8 :=
  UInt8.ofNat (q.ipBytes.groups * 32 + q.kind.opcode) ::
    toLeBytes (2 * q.ipBytes.groups) q.addr.toNat

/-- The part of the address that the packet leaves out is the one of `last`. -/
def SameUpper (q : IpPacket) (last : UInt64) : Prop :=
  q.ipBytes = .three ∨
    q.addr.toNat / 2 ^ (16 * q.ipBytes.groups) = last.toNat / 2 ^ (16 * q.ipBytes.groups)

/-- `last` has nothing in the part that the packet leaves out. -/
def Short (q : IpPacket) (last : UInt64) : Prop :=
  q.ipBytes = .three ∨ last.toNat < 2 ^ (16 * q.ipBytes.groups)

end IpPacket

inductive Item where
  | psb
  | ovf
  | ip (q : IpPacket)

def Item.encode : Item → List UInt8
  | psb => Pt.psb
  | ovf => [0x02, 0xF3]
  | ip q => q.encode

def encodeAll (items : List Item) : List UInt8 := items.flatMap Item.encode

/-- The packets are compressed relative to the address before, which starts as `last`. -/
def Compressed : UInt64 → List Item → Prop
  | _, [] => True
  | _, .psb :: items => Compressed 0 items
  | _, .ovf :: items => Compressed 0 items
  | last, .ip q :: items => q.SameUpper last ∧ Compressed q.addr items

/-- The first address behind a `PSB` is written in full, or the address in front of the `PSB` fits
into the part that is written. `last` is the address before, unless an `OVF` came after it. -/
def PsbSafe : UInt64 → Bool → List Item → Prop
  | _, _, [] => True
  | last, _, .psb :: items => PsbSafe last true items
  | _, _, .ovf :: items => PsbSafe 0 false items
  | last, afterPsb, .ip q :: items => (afterPsb = true → q.Short last) ∧ PsbSafe q.addr false items

/-! ### The value of a packet -/

lemma toNat_foldr_bytes {bs : List UInt8} (h : bs.length ≤ 8) :
    (bs.foldr (fun byte (value : UInt64) => (value <<< 8) ||| byte.toUInt64) 0).toNat =
      fromLeBytes bs := by
  induction bs with
  | nil => rfl
  | cons b bs ih =>
    rw [List.length_cons] at h
    have hlt : fromLeBytes bs < 256 ^ 7 :=
      (fromLeBytes_lt bs).trans_le (Nat.pow_le_pow_right (by decide) (by omega))
    have hb := b.toNat_lt
    rw [List.foldr_cons, UInt64.toNat_or, UInt64.toNat_shiftLeft, ih (by omega),
      fromLeBytes_cons, UInt8.toNat_toUInt64]
    have hshift : fromLeBytes bs <<< ((8 : UInt64).toNat % 64) % 2 ^ 64 = fromLeBytes bs <<< 8 := by
      rw [show (8 : UInt64).toNat % 64 = 8 from rfl, Nat.shiftLeft_eq]
      omega
    rw [hshift, ← Nat.shiftLeft_add_eq_or_of_lt hb, Nat.shiftLeft_eq]
    omega

lemma toNat_readU64 (p : List UInt8) : (readU64 p).toNat = fromLeBytes (p.take 8) :=
  toNat_foldr_bytes (List.length_take_le 8 p)

lemma readU64_mod {w : ℕ} (hw : w ≤ 8) (n : ℕ) (rest : List UInt8) :
    (readU64 (toLeBytes w n ++ rest)).toNat % 256 ^ w = n % 256 ^ w := by
  have htake : (toLeBytes w n ++ rest).take 8 = toLeBytes w n ++ rest.take (8 - w) := by
    rw [List.take_append, length_toLeBytes, List.take_of_length_le (by simpa using hw)]
  rw [toNat_readU64, htake, fromLeBytes_append, length_toLeBytes, Nat.add_mul_mod_self_left,
    fromLeBytes_toLeBytes, Nat.mod_mod]

lemma toNat_signExtend (x : UInt64) :
    ((x <<< (64 - 48)).toInt64 >>> (64 - 48)).toUInt64.toNat =
      if x.toNat % 2 ^ 48 < 2 ^ 47 then x.toNat % 2 ^ 48
      else x.toNat % 2 ^ 48 + (2 ^ 64 - 2 ^ 48) := by
  have hbits : ((x <<< (64 - 48)).toInt64 >>> (64 - 48)).toUInt64.toBitVec =
      (x.toBitVec <<< 16).sshiftRight 16 := rfl
  have hlow : (x.toBitVec <<< 16).toNat = x.toNat % 2 ^ 48 * 2 ^ 16 := by
    rw [BitVec.toNat_shiftLeft, Nat.shiftLeft_eq]
    show x.toNat * 2 ^ 16 % 2 ^ 64 = _
    omega
  have hmsb : (x.toBitVec <<< 16).msb = decide (2 ^ 47 ≤ x.toNat % 2 ^ 48) := by
    rw [BitVec.msb_eq_decide, hlow]
    apply decide_eq_decide.mpr
    omega
  show ((x <<< (64 - 48)).toInt64 >>> (64 - 48)).toUInt64.toBitVec.toNat = _
  rw [hbits]
  by_cases h : x.toNat % 2 ^ 48 < 2 ^ 47
  · have hpos : (x.toBitVec <<< 16).msb = false := by
      rw [hmsb]
      simpa using h
    rw [if_pos h, BitVec.sshiftRight_eq_of_msb_false hpos, BitVec.toNat_ushiftRight, hlow,
      Nat.shiftRight_eq_div_pow]
    omega
  · have hneg : (x.toBitVec <<< 16).msb = true := by
      rw [hmsb]
      simpa using h
    rw [if_neg h, BitVec.sshiftRight_eq_of_msb_true hneg, BitVec.toNat_not,
      BitVec.toNat_ushiftRight, BitVec.toNat_not, hlow, Nat.shiftRight_eq_div_pow]
    omega

def IpBytes.len (b : IpBytes) : UInt64 := UInt64.ofNat b.groups

lemma toNat_lowMask (b : IpBytes) :
    ((0xFFFFFFFFFFFFFFFF : UInt64) >>> ((4 - b.len) * 16)).toNat =
      (2 ^ (16 * b.groups) - 1) * 2 ^ 0 := by
  cases b <;> rfl

lemma toNat_highMask (b : IpBytes) :
    ((0xFFFFFFFFFFFFFFFF : UInt64) <<< (b.len * 16)).toNat =
      (2 ^ (64 - 16 * b.groups) - 1) * 2 ^ (16 * b.groups) := by
  cases b <;> rfl

lemma toNat_joined (b : IpBytes) (payload last : UInt64) :
    ((payload &&& ((0xFFFFFFFFFFFFFFFF : UInt64) >>> ((4 - b.len) * 16))) |||
        (last &&& ((0xFFFFFFFFFFFFFFFF : UInt64) <<< (b.len * 16)))).toNat =
      field last.toNat (16 * b.groups) (64 - 16 * b.groups) +
        payload.toNat % 2 ^ (16 * b.groups) := by
  have hlow : field payload.toNat 0 (16 * b.groups) = payload.toNat % 2 ^ (16 * b.groups) := by
    simp [field]
  rw [UInt64.toNat_or, UInt64.toNat_and, UInt64.toNat_and, toNat_lowMask, toNat_highMask, and_mask,
    and_mask, hlow, Nat.or_comm]
  exact field_or _ _ _ (Nat.mod_lt _ (Nat.two_pow_pos _))

lemma joined_mod (last addr : ℕ) {low : ℕ} (hlow : low ≤ 48) :
    (field last low (64 - low) + addr % 2 ^ low) % 2 ^ 48 =
      last / 2 ^ low % 2 ^ (48 - low) * 2 ^ low + addr % 2 ^ low := by
  have hpow : 2 ^ 48 = 2 ^ low * 2 ^ (48 - low) := by
    rw [← Nat.pow_add, Nat.add_sub_cancel' hlow]
  have hlt : addr % 2 ^ low < 2 ^ low := Nat.mod_lt _ (Nat.two_pow_pos _)
  rw [field, hpow, Nat.mod_mul, Nat.mul_add_mod_self_right, Nat.mod_mod,
    Nat.add_comm (_ * _) (addr % _), Nat.add_mul_div_right _ _ (Nat.two_pow_pos low),
    Nat.div_eq_of_lt hlt, Nat.zero_add, Nat.mod_mod_of_dvd _ (Nat.pow_dvd_pow 2 (by omega)),
    Nat.mul_comm (2 ^ low), Nat.add_comm]

lemma signExtend_eq_iff {low : ℕ} (hlow : low < 2 ^ 48) {addr : UInt64} (haddr : Canonical addr) :
    (if low < 2 ^ 47 then low else low + (2 ^ 64 - 2 ^ 48)) = addr.toNat ↔
      low = addr.toNat % 2 ^ 48 := by
  have hlt := addr.toNat_lt
  unfold Canonical at haddr
  split_ifs <;> omega

lemma ipValue_eq_iff (q : IpPacket) {payload last : UInt64}
    (hpayload : payload.toNat % 2 ^ (16 * q.ipBytes.groups) =
      q.addr.toNat % 2 ^ (16 * q.ipBytes.groups))
    (hlast : Canonical last) : ipValue q.ipBytes.len payload last = q.addr ↔ q.SameUpper last := by
  have hgroups : 16 * q.ipBytes.groups ≤ 48 := by cases q.ipBytes <;> decide
  have hvalue : (ipValue q.ipBytes.len payload last).toNat = _ := toNat_signExtend _
  rw [toNat_joined, hpayload] at hvalue
  rw [← UInt64.toNat_inj, hvalue, signExtend_eq_iff (Nat.mod_lt _ (Nat.two_pow_pos _)) q.canonical,
    joined_mod _ _ hgroups]
  have hcanonical := q.canonical
  have haddr := q.addr.toNat_lt
  have hlt := last.toNat_lt
  unfold Canonical at hcanonical hlast
  have hsplit : ∀ low ≤ 48, q.addr.toNat % 2 ^ 48 =
      q.addr.toNat / 2 ^ low % 2 ^ (48 - low) * 2 ^ low + q.addr.toNat % 2 ^ low := by
    intro low hlow
    have hpow : 2 ^ 48 = 2 ^ low * 2 ^ (48 - low) := by
      rw [← Nat.pow_add, Nat.add_sub_cancel' hlow]
    rw [hpow, Nat.mod_mul, Nat.add_comm, Nat.mul_comm]
  unfold IpPacket.SameUpper
  cases q.ipBytes with
  | one =>
    simp only [IpBytes.groups, reduceCtorEq, false_or]
    omega
  | two =>
    simp only [IpBytes.groups, reduceCtorEq, false_or]
    omega
  | three =>
    simp only [IpBytes.groups, true_or, iff_true]
    omega

lemma canonical_zero : Canonical 0 := by
  decide

lemma canonical_ipValue (len payload last : UInt64) : Canonical (ipValue len payload last) := by
  have hvalue : (ipValue len payload last).toNat = _ := toNat_signExtend _
  unfold Canonical
  rw [hvalue]
  split_ifs <;> omega

lemma canonical_getIpVal (p : List UInt8) {last : UInt64} (hlast : Canonical last) :
    Canonical (getIpVal p last).2.1 := by
  unfold getIpVal
  split
  · exact hlast
  · dsimp only
    split
    · exact hlast
    · exact canonical_ipValue _ _ _

lemma getIpVal_encode (q : IpPacket) (rest : List UInt8) (last : UInt64) :
    ∃ payload : UInt64, payload.toNat % 2 ^ (16 * q.ipBytes.groups) =
        q.addr.toNat % 2 ^ (16 * q.ipBytes.groups) ∧
      getIpVal (q.encode ++ rest) last = (ipValue q.ipBytes.len payload last,
        ipValue q.ipBytes.len payload last, rest) := by
  have hwidth : 2 * q.ipBytes.groups ≤ 8 := by cases q.ipBytes <;> decide
  have hpow : 256 ^ (2 * q.ipBytes.groups) = 2 ^ (16 * q.ipBytes.groups) := by
    cases q.ipBytes <;> decide
  refine ⟨readU64 (toLeBytes (2 * q.ipBytes.groups) q.addr.toNat ++ rest), ?_, ?_⟩
  · rw [← hpow]
    exact readU64_mod hwidth q.addr.toNat rest
  · have hlen : UInt8.ofNat (q.ipBytes.groups * 32 + q.kind.opcode) >>> 5 =
        UInt8.ofNat q.ipBytes.groups := by
      cases q.ipBytes <;> cases q.kind <;> rfl
    have hne : UInt8.ofNat q.ipBytes.groups ≠ 0 := by cases q.ipBytes <;> decide
    have hword : (UInt8.ofNat q.ipBytes.groups).toUInt64 = q.ipBytes.len := by
      cases q.ipBytes <;> rfl
    have hnat : (UInt8.ofNat q.ipBytes.groups).toNat = q.ipBytes.groups := by
      cases q.ipBytes <;> rfl
    have hdrop : (toLeBytes (2 * q.ipBytes.groups) q.addr.toNat ++ rest).drop
        (q.ipBytes.groups * 2) = rest := by
      rw [Nat.mul_comm]
      exact List.drop_left' (length_toLeBytes _ _)
    simp only [IpPacket.encode, List.cons_append, getIpVal, hlen, if_neg hne, hword, hnat, hdrop]

/-! ### The decoder -/

variable {σ : Type} (trace : Tracer σ)

/-- No page fault is reported from a place in the buffer on. -/
def Quiet (r : DecodeRun σ) : Prop :=
  ∀ t decoded, Visits (DecodeRun.step trace) r t → t.step trace = .inr (some decoded) →
    decoded.result ≠ .pageFault

/-- The decoder takes the items one after the other, each with all of its bytes, and holds the
address of an item after it. -/
def Reconstructs (tail : List UInt8) : DecodeRun σ → List Item → Prop
  | _, [] => True
  | r, item :: items => ∃ r', r.step trace = .inl r' ∧ r'.p = encodeAll items ++ tail ∧
      (∀ q, item = .ip q → r'.self.lastTip = q.addr) ∧ Reconstructs tail r' items

variable {trace} {r : DecodeRun σ}

lemma Quiet.next {r' : DecodeRun σ} (h : Quiet trace r) (hstep : r.step trace = .inl r') :
    Quiet trace r' := fun t decoded hvisits =>
  h t decoded (.of_step hstep hvisits)

lemma lastTip_disasm : (r.disasm trace).self.lastTip = r.self.lastTip := by
  unfold DecodeRun.disasm
  dsimp only
  split <;> rfl

lemma lastTip_bindFup : (r.bindFup trace).self.lastTip = r.self.lastTip := by
  unfold DecodeRun.bindFup
  split
  · exact lastTip_disasm
  · rfl

lemma afterTip_of_quiet (hquiet : Quiet trace r) {r' : DecodeRun σ}
    (hstep : r.step trace = r'.afterTip) :
    r.step trace = .inl r' ∧ r'.self.pageFaultFound = false := by
  unfold DecodeRun.afterTip at hstep
  split at hstep
  · exact absurd rfl (hquiet r _ .start hstep)
  · exact ⟨hstep, by simpa using ‹¬r'.self.pageFaultFound = true›⟩

lemma step_inr_cases {decoded : Decoded σ} (h : r.step trace = .inr (some decoded)) :
    decoded = r.exit ∨ (r.tipHandler trace).self.pageFaultFound ∨
      (r.tipPgeHandler trace).self.pageFaultFound ∨
      (r.tipPgdHandler trace).self.pageFaultFound := by
  have hafter : ∀ r' : DecodeRun σ, r'.afterTip = .inr (some decoded) →
      r'.self.pageFaultFound = true := by
    intro r' h'
    unfold DecodeRun.afterTip at h'
    split at h'
    · assumption
    · cases h'
  unfold DecodeRun.step at h
  split at h
  · cases h
  · split at h
    · cases h
    · cases h
    · exact .inr (.inl (hafter _ h))
    · exact .inr (.inr (.inl (hafter _ h)))
    · exact .inr (.inr (.inr (hafter _ h)))
    · cases h
    · split at h <;> cases h
    · split at h
      · cases h
      · split at h <;> cases h
    · cases h
      exact .inl rfl
    · cases h

lemma quiet_of_pages (hpages : ∀ s request, (trace s request).missing = none)
    (hfault : r.self.pageFaultFound = false) : Quiet trace r := by
  intro t decoded hvisits hstep hresult
  have ht : t.self.pageFaultFound = false :=
    hvisits.invariant (P := fun r => r.self.pageFaultFound = false)
      (fun _ _ h hnext => pageFaultFound_step trace h hnext) hfault
  have hdisasm : ∀ r' : DecodeRun σ,
      (r'.disasm trace).self.pageFaultFound = r'.self.pageFaultFound := by
    intro r'
    unfold DecodeRun.disasm
    dsimp only
    split
    · simp [hpages]
    · rfl
  have hbind : ∀ r' : DecodeRun σ,
      (r'.bindFup trace).self.pageFaultFound = r'.self.pageFaultFound := by
    intro r'
    unfold DecodeRun.bindFup
    split
    · exact hdisasm _
    · rfl
  rcases step_inr_cases hstep with hexit | htip | hpge | hpgd
  · rw [hexit] at hresult
    unfold DecodeRun.exit at hresult
    split at hresult
    · cases hresult
    · split at hresult <;> cases hresult
  · simp [DecodeRun.tipHandler, hbind, ht, hdisasm, DecodeRun.advance, DecodeRun.readTip] at htip
  · simp [DecodeRun.tipPgeHandler, hbind, ht, DecodeRun.advance, DecodeRun.readTip] at hpge
  · simp [DecodeRun.tipPgdHandler, hbind, ht, hdisasm, DecodeRun.advance, DecodeRun.readTip] at hpgd

lemma canonical_read (finish : DecodeRun σ → DecodeRun σ) {r₁ : DecodeRun σ}
    (h : Canonical r₁.self.lastTip) (hfinish : ∀ t, (finish t).self.lastTip = t.self.lastTip) :
    Canonical (if r₁.self.pageFaultFound then r₁ else finish r₁.readTip).self.lastTip := by
  split
  · exact h
  · rw [hfinish]
    exact canonical_getIpVal _ h

lemma canonical_afterTip {r' : DecodeRun σ} (h : Canonical r'.self.lastTip) :
    Sum.elim (fun t : DecodeRun σ => Canonical t.self.lastTip)
      (fun o => ∀ decoded ∈ o, Canonical decoded.self.lastTip) r'.afterTip := by
  unfold DecodeRun.afterTip
  split
  · rintro _ ⟨⟩
    exact canonical_zero
  · exact h

lemma canonical_exit (h : Canonical r.self.lastTip) : Canonical r.exit.self.lastTip := by
  unfold DecodeRun.exit
  split
  · exact h
  · exact canonical_zero

lemma canonical_step (h : Canonical r.self.lastTip) :
    Sum.elim (fun t : DecodeRun σ => Canonical t.self.lastTip)
      (fun o => ∀ decoded ∈ o, Canonical decoded.self.lastTip) (r.step trace) := by
  have hbind : Canonical (r.bindFup trace).self.lastTip := by
    rw [lastTip_bindFup]
    exact h
  unfold DecodeRun.step
  split
  · exact fun _ hnone => by cases hnone
  · split
    · exact h
    · exact h
    · exact canonical_afterTip (canonical_read
        (fun t => (t.advance (·.handleTip t.self.lastTip)).disasm trace) hbind
        fun t => lastTip_disasm)
    · refine canonical_afterTip (canonical_read (fun t => t.advance (·.handlePge t.self.lastTip)) ?_
        fun t => rfl)
      rw [lastTip_bindFup]
      exact h
    · exact canonical_afterTip (canonical_read
        (fun t => (t.advance (·.handlePgd t.self.lastTip)).disasm trace) hbind
        fun t => lastTip_disasm)
    · show Canonical r.tipFupHandler.self.lastTip
      unfold DecodeRun.tipFupHandler
      dsimp only
      split <;> exact canonical_getIpVal _ h
    · split
      · exact fun _ hnone => by cases hnone
      · exact h
    · split
      · exact fun _ hnone => by cases hnone
      · split
        · next hlevel =>
          unfold DecodeRun.level2 at hlevel
          split_ifs at hlevel <;> cases hlevel
          iterate 5 exact h
          exact canonical_zero
        · exact fun _ hnone => by cases hnone
    · rintro _ ⟨⟩
      exact canonical_exit h
    · exact fun _ hnone => by cases hnone

/-- The last address of a decoder is sign-extended, whatever it has read. -/
lemma Reachable.canonical {ok : Decoder σ → TraceBuffer → Prop} {d : Decoder σ}
    (h : Reachable trace ok d) : Canonical d.lastTip := by
  induction h with
  | init dis => exact canonical_zero
  | disassembler _ _ ih => exact ih
  | @decode d b decoded _ _ hdecode ih =>
    unfold decodeBuffer at hdecode
    dsimp only at hdecode
    split at hdecode
    · cases hdecode
      exact canonical_exit (r := ⟨[], { d with pageFaultFound := false }, false, []⟩) ih
    · rw [Option.join_eq_some_iff] at hdecode
      exact iterate_elim (P := fun t : DecodeRun σ => Canonical t.self.lastTip)
        (Q := fun o => ∀ decoded ∈ o, Canonical decoded.self.lastTip)
        (fun _ ht => canonical_step ht) ih hdecode decoded rfl

/-- The handler has read its address. -/
structure HasRead (r r' : DecodeRun σ) : Prop where
  p : r'.p = (getIpVal r.p r.self.lastTip).2.2
  lastTip : r'.self.lastTip = (getIpVal r.p r.self.lastTip).2.1

/-- The handlers read the address after a waiting `FUP`, if that did not miss a page. `finish` is
what they do with it. -/
lemma HasRead.of_bound (finish : DecodeRun σ → DecodeRun σ) {r₁ : DecodeRun σ} (hp : r₁.p = r.p)
    (hlast : r₁.self.lastTip = r.self.lastTip)
    (hfinish : ∀ t, (finish t).p = t.p ∧ (finish t).self.lastTip = t.self.lastTip)
    (hfault : (if r₁.self.pageFaultFound then r₁
      else finish r₁.readTip).self.pageFaultFound = false) :
    HasRead r (if r₁.self.pageFaultFound then r₁ else finish r₁.readTip) := by
  by_cases h : r₁.self.pageFaultFound = true
  · rw [if_pos h, h] at hfault
    cases hfault
  · rw [if_neg h]
    constructor
    · rw [(hfinish _).1, ← hp, ← hlast]
      rfl
    · rw [(hfinish _).2, ← hp, ← hlast]
      rfl

lemma step_encode (q : IpPacket) {rest : List UInt8} (hp : r.p = q.encode ++ rest)
    (hquiet : Quiet trace r) : ∃ r', r.step trace = .inl r' ∧ HasRead r r' := by
  have hstep : r.step trace = match q.kind with
      | .tip => (r.tipHandler trace).afterTip
      | .pge => (r.tipPgeHandler trace).afterTip
      | .pgd => (r.tipPgdHandler trace).afterTip
      | .fup => .inl r.tipFupHandler := by
    have hlabel : dispatchTableLevel1 (UInt8.ofNat (q.ipBytes.groups * 32 + q.kind.opcode)) =
        q.kind.label := by
      cases q.ipBytes <;> cases q.kind <;> decide
    unfold DecodeRun.step
    rw [hp]
    simp only [IpPacket.encode, List.cons_append, hlabel]
    cases q.kind <;> rfl
  cases hkind : q.kind with
  | tip =>
    rw [hkind] at hstep
    obtain ⟨hnext, hfault⟩ := afterTip_of_quiet hquiet hstep
    exact ⟨_, hnext, .of_bound (fun t => (t.advance (·.handleTip t.self.lastTip)).disasm trace)
      (Refines.p_bindFup trace) lastTip_bindFup
      (fun t => ⟨Refines.p_disasm trace, lastTip_disasm⟩) hfault⟩
  | pge =>
    rw [hkind] at hstep
    obtain ⟨hnext, hfault⟩ := afterTip_of_quiet hquiet hstep
    exact ⟨_, hnext, .of_bound (fun t => t.advance (·.handlePge t.self.lastTip))
      (Refines.p_bindFup trace) lastTip_bindFup (fun t => ⟨rfl, rfl⟩) hfault⟩
  | pgd =>
    rw [hkind] at hstep
    obtain ⟨hnext, hfault⟩ := afterTip_of_quiet hquiet hstep
    exact ⟨_, hnext, .of_bound (fun t => (t.advance (·.handlePgd t.self.lastTip)).disasm trace)
      (Refines.p_bindFup trace) lastTip_bindFup
      (fun t => ⟨Refines.p_disasm trace, lastTip_disasm⟩) hfault⟩
  | fup =>
    rw [hkind] at hstep
    refine ⟨_, hstep, ?_, ?_⟩
    · unfold DecodeRun.tipFupHandler
      dsimp only
      split <;> rfl
    · unfold DecodeRun.tipFupHandler
      dsimp only
      split <;> rfl

/-- The packets are compressed relative to the address before as the decoder has it. -/
def KeepsUpper : UInt64 → List Item → Prop
  | _, [] => True
  | last, .psb :: items => KeepsUpper last items
  | _, .ovf :: items => KeepsUpper 0 items
  | last, .ip q :: items => q.SameUpper last ∧ KeepsUpper q.addr items

lemma HasRead.lastTip_eq_iff {r' : DecodeRun σ} (h : HasRead r r') (q : IpPacket)
    {rest : List UInt8} (hp : r.p = q.encode ++ rest) (hlast : Canonical r.self.lastTip) :
    r'.p = rest ∧ (r'.self.lastTip = q.addr ↔ q.SameUpper r.self.lastTip) := by
  obtain ⟨payload, hpayload, hval⟩ := getIpVal_encode q rest r.self.lastTip
  have hnext := h.p
  have htip := h.lastTip
  rw [hp, hval] at hnext htip
  exact ⟨hnext, by rw [htip, ipValue_eq_iff q hpayload hlast]⟩

lemma reconstructs_iff_keepsUpper (tail : List UInt8) (items : List Item)
    (hp : r.p = encodeAll items ++ tail) (hlast : Canonical r.self.lastTip) (hquiet : Quiet trace r) :
    Reconstructs trace tail r items ↔ KeepsUpper r.self.lastTip items := by
  induction items generalizing r with
  | nil => exact Iff.rfl
  | cons item items ih =>
    -- the turn is the same on both sides, so only its outcome has to be compared
    have hunique : ∀ {r' : DecodeRun σ}, r.step trace = .inl r' → r'.p = encodeAll items ++ tail →
        (Reconstructs trace tail r (item :: items) ↔
          (∀ q, item = .ip q → r'.self.lastTip = q.addr) ∧ Reconstructs trace tail r' items) := by
      intro r' hstep hp'
      constructor
      · rintro ⟨r'', hstep', -, haddr, hrest⟩
        rw [hstep] at hstep'
        cases hstep'
        exact ⟨haddr, hrest⟩
      · rintro ⟨haddr, hrest⟩
        exact ⟨r', hstep, hp', haddr, hrest⟩
    rw [encodeAll, List.flatMap_cons, List.append_assoc] at hp
    cases item with
    | psb =>
      have hstep : r.step trace = .inl { r with p := encodeAll items ++ tail } := by
        cases r
        subst hp
        rfl
      rw [hunique hstep rfl, ih (r := { r with p := encodeAll items ++ tail }) rfl hlast
        (hquiet.next hstep)]
      simp [KeepsUpper]
    | ovf =>
      have hstep : r.step trace = .inl { r with p := encodeAll items ++ tail }.overflowHandler := by
        cases r
        subst hp
        rfl
      have hrest := ih rfl canonical_zero (hquiet.next hstep)
      rw [hunique hstep rfl, hrest]
      simp [KeepsUpper, DecodeRun.overflowHandler]
    | ip q =>
      obtain ⟨r', hstep, hread⟩ := step_encode q hp hquiet
      obtain ⟨hp', haddr⟩ := hread.lastTip_eq_iff q hp hlast
      rw [hunique hstep hp', KeepsUpper, ← haddr]
      constructor
      · rintro ⟨hq, hrest⟩
        have htip := hq q rfl
        refine ⟨htip, ?_⟩
        rw [← htip, ← ih hp' (htip ▸ q.canonical) (hquiet.next hstep)]
        exact hrest
      · rintro ⟨htip, hrest⟩
        refine ⟨fun q' hq' => by cases hq'; exact htip, ?_⟩
        rw [ih hp' (htip ▸ q.canonical) (hquiet.next hstep), htip]
        exact hrest

lemma sameUpper_iff_short {q : IpPacket} (h : q.SameUpper 0) (last : UInt64) :
    q.SameUpper last ↔ q.Short last := by
  unfold IpPacket.SameUpper at h ⊢
  unfold IpPacket.Short
  rcases h with h | h
  · simp [h]
  · rw [show (0 : UInt64).toNat = 0 from rfl, Nat.zero_div] at h
    rw [h, eq_comm (a := 0), Nat.div_eq_zero_iff_lt (Nat.two_pow_pos _)]

lemma keepsUpper_iff_psbSafe {items : List Item} {enc dec : UInt64} {afterPsb : Bool}
    (hpsb : afterPsb → enc = 0) (hsame : afterPsb = false → enc = dec)
    (h : Compressed enc items) : KeepsUpper dec items ↔ PsbSafe dec afterPsb items := by
  induction items generalizing enc dec afterPsb with
  | nil => exact Iff.rfl
  | cons item items ih =>
    cases item with
    | psb => exact ih (fun _ => rfl) (fun hfalse => by cases hfalse) h
    | ovf => exact ih (fun _ => rfl) (fun _ => rfl) h
    | ip q =>
      have hrest : KeepsUpper q.addr items ↔ PsbSafe q.addr false items :=
        ih (fun hfalse => by cases hfalse) (fun _ => rfl) h.2
      rw [KeepsUpper, PsbSafe, hrest]
      cases afterPsb with
      | true =>
        have hzero := h.1
        rw [hpsb rfl] at hzero
        simp [sameUpper_iff_short hzero]
      | false =>
        have hupper := h.1
        rw [hsame rfl] at hupper
        simp [hupper]

/-- The addresses of a compressed trace are reconstructed, each from exactly its packet, if and only
if no short address follows a `PSB` with a longer address in front of it. The address in front of
the first `PSB` is what earlier buffers have left. -/
theorem reconstructs_iff {ok : Decoder σ → TraceBuffer → Prop} {d : Decoder σ}
    (hd : Reachable trace ok d) {items : List Item} (hitems : Compressed 0 items) (tail : List UInt8)
    {p : List UInt8} (hp : p = encodeAll (.psb :: items) ++ tail)
    (hquiet : Quiet trace ⟨p, { d with pageFaultFound := false }, false, []⟩) :
    memmemPsb p = some p ∧
      (Reconstructs trace tail ⟨p, { d with pageFaultFound := false }, false, []⟩ (.psb :: items) ↔
        PsbSafe d.lastTip true items) := by
  constructor
  · rw [hp]
    rfl
  · rw [reconstructs_iff_keepsUpper tail (.psb :: items) hp hd.canonical hquiet]
    show KeepsUpper d.lastTip items ↔ _
    exact keepsUpper_iff_psbSafe (fun _ => rfl) (fun hfalse => by cases hfalse) hitems

def shortAfterPsb (first second : UInt64) (hfirst : Canonical first) (hsecond : Canonical second) :
    List Item :=
  [.ip ⟨.pge, .three, first, hfirst⟩, .psb, .ip ⟨.tip, .one, second, hsecond⟩]

def lowAddresses : List Item := shortAfterPsb 0x1000 0x2000 (by decide) (by decide)

def highAddress : List Item := shortAfterPsb 0x7FFF12340000 0x2000 (by decide) (by decide)

theorem reconstructs_lowAddresses :
    PsbSafe 0 true lowAddresses ∧
      Reconstructs (takes 1) [ptTraceEnd]
        ⟨encodeAll (.psb :: lowAddresses) ++ [ptTraceEnd], ptDecoderInit (), false, []⟩
        (.psb :: lowAddresses) := by
  have hcompressed : Compressed 0 lowAddresses := ⟨.inl rfl, .inr (by decide), trivial⟩
  have hsafe : PsbSafe 0 true lowAddresses :=
    ⟨fun _ => .inl rfl, fun _ => .inr (by decide), trivial⟩
  have hd : Reachable (takes 1) (fun _ _ => True) (ptDecoderInit ()) := .init ()
  exact ⟨hsafe, (reconstructs_iff hd hcompressed [ptTraceEnd] rfl
    (quiet_of_pages (fun _ _ => rfl) rfl)).2.mpr hsafe⟩

theorem not_reconstructs_highAddress :
    Compressed 0 highAddress ∧
      Quiet (takes 1)
        ⟨encodeAll (.psb :: highAddress) ++ [ptTraceEnd], ptDecoderInit (), false, []⟩ ∧
      ¬Reconstructs (takes 1) [ptTraceEnd]
        ⟨encodeAll (.psb :: highAddress) ++ [ptTraceEnd], ptDecoderInit (), false, []⟩
        (.psb :: highAddress) := by
  have hquiet : Quiet (takes 1)
      ⟨encodeAll (.psb :: highAddress) ++ [ptTraceEnd], ptDecoderInit (), false, []⟩ :=
    quiet_of_pages (fun _ _ => rfl) rfl
  refine ⟨⟨.inl rfl, .inr (by decide), trivial⟩, hquiet, ?_⟩
  rw [reconstructs_iff_keepsUpper [ptTraceEnd] (.psb :: highAddress) rfl (.inl (by decide)) hquiet]
  rintro ⟨-, hthree | hupper, -⟩
  · cases hthree
  · exact absurd hupper (by decide)

end Nyx.Pt
