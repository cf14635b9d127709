import Nyx.Graph.GraphIter

/-!
# Graph storages

The ops and the data only grow at their ends, so the mutable slice that `append_data` and `get_data`
hand out is written back by `setTail`. `VecGraph` is unbounded, `RefGraph` fills fixed buffers.
-/

namespace Nyx

/-- What a storage of ops and data can do. -/
class GraphStorage (S : Type) where
  clear : S → S
  appendOp : S → UInt16 → Option S
  appendData : S → List UInt8 → Option S
  getData : S → ℕ → Option S
  setTail : S → List UInt8 → S
  dataAvailable : S → ℕ
  opsAvailable : S → ℕ
  canAppend : S → GraphNode → Bool
  opsAsSlice : S → List UInt16
  dataAsSlice : S → List UInt8
  ops_clear : ∀ s, opsAsSlice (clear s) = []
  data_clear : ∀ s, dataAsSlice (clear s) = []
  ops_appendOp : ∀ s op s', appendOp s op = some s' → opsAsSlice s' = opsAsSlice s ++ [op]
  data_appendOp : ∀ s op s', appendOp s op = some s' → dataAsSlice s' = dataAsSlice s
  exists_appendOp : ∀ s op, 0 < opsAvailable s → ∃ s', appendOp s op = some s'
  opsAvailable_appendOp : ∀ s op s', appendOp s op = some s' →
    opsAvailable s ≤ opsAvailable s' + 1
  dataAvailable_appendOp : ∀ s op s', appendOp s op = some s' → dataAvailable s' = dataAvailable s
  ops_appendData : ∀ s bs s', appendData s bs = some s' → opsAsSlice s' = opsAsSlice s
  data_appendData : ∀ s bs s', appendData s bs = some s' → dataAsSlice s' = dataAsSlice s ++ bs
  ops_getData : ∀ s n s', getData s n = some s' → opsAsSlice s' = opsAsSlice s
  data_getData : ∀ s n s', getData s n = some s' →
    ∃ bs, bs.length = n ∧ dataAsSlice s' = dataAsSlice s ++ bs
  exists_getData : ∀ s n, n ≤ dataAvailable s → ∃ s', getData s n = some s'
  ops_setTail : ∀ s bs, opsAsSlice (setTail s bs) = opsAsSlice s
  data_setTail : ∀ s bs, bs.length ≤ (dataAsSlice s).length →
    dataAsSlice (setTail s bs) = (dataAsSlice s).take ((dataAsSlice s).length - bs.length) ++ bs

namespace GraphStorage

variable {S : Type} [GraphStorage S]

def dataLen (s : S) : ℕ := (dataAsSlice s).length

def opLen (s : S) : ℕ := (opsAsSlice s).length

def nodeIter (g : GraphSpec) (s : S) : Iter Panic GraphNode :=
  Nyx.nodeIter g (opsAsSlice s) (dataAsSlice s)

def opIter (g : GraphSpec) (s : S) : Iter Panic GraphOp := Nyx.opIter g (opsAsSlice s)

/-- The last `n` bytes of the data, which is what `append_data` and `get_data` hand out. -/
def tail (s : S) (n : ℕ) : List UInt8 := (dataAsSlice s).drop (dataLen s - n)

end GraphStorage

/-- A graph on vectors that grow. -/
structure VecGraph where
  ops : List UInt16
  data : List UInt8
  deriving DecidableEq, Repr

namespace VecGraph

def empty : VecGraph := ⟨[], []⟩

instance : GraphStorage VecGraph where
  clear _ := empty
  appendOp s op := some { s with ops := s.ops ++ [op] }
  appendData s bs := some { s with data := s.data ++ bs }
  getData s n := some { s with data := s.data ++ List.replicate n 0 }
  setTail s bs := { s with data := s.data.take (s.data.length - bs.length) ++ bs }
  dataAvailable _ := 0xffffffff
  opsAvailable _ := 0xffffffff
  canAppend _ _ := true
  opsAsSlice s := s.ops
  dataAsSlice s := s.data
  ops_clear _ := rfl
  data_clear _ := rfl
  ops_appendOp := by rintro s op s' ⟨⟩; rfl
  data_appendOp := by rintro s op s' ⟨⟩; rfl
  exists_appendOp _ _ _ := ⟨_, rfl⟩
  opsAvailable_appendOp _ _ _ _ := Nat.le_succ _
  dataAvailable_appendOp _ _ _ _ := rfl
  ops_appendData := by rintro s bs s' ⟨⟩; rfl
  data_appendData := by rintro s bs s' ⟨⟩; rfl
  ops_getData := by rintro s n s' ⟨⟩; rfl
  data_getData := by
    rintro s n s' ⟨⟩
    exact ⟨List.replicate n 0, List.length_replicate, rfl⟩
  exists_getData _ _ _ := ⟨_, rfl⟩
  ops_setTail _ _ := rfl
  data_setTail _ _ _ := rfl

end VecGraph

/-- Two buffers of fixed size that are filled up to a position. -/
structure RefGraph where
  ops : List UInt16
  opsI : ℕ
  data : List UInt8
  dataI : ℕ
  opsI_le : opsI ≤ ops.length
  dataI_le : dataI ≤ data.length

namespace RefGraph

def clear (s : RefGraph) : RefGraph :=
  { s with opsI := 0, dataI := 0, opsI_le := Nat.zero_le _, dataI_le := Nat.zero_le _ }

def appendOp (s : RefGraph) (op : UInt16) : Option RefGraph :=
  if h : s.opsI < s.ops.length then
    some { s with
      ops := s.ops.set s.opsI op
      opsI := s.opsI + 1
      opsI_le := by rw [List.length_set]; exact h }
  else none

def getData (s : RefGraph) (n : ℕ) : Option RefGraph :=
  if h : s.dataI + n ≤ s.data.length then some { s with dataI := s.dataI + n, dataI_le := h }
  else none

def appendData (s : RefGraph) (bs : List UInt8) : Option RefGraph :=
  if h : s.dataI + bs.length ≤ s.data.length then
    some { s with
      data := s.data.take s.dataI ++ bs ++ s.data.drop (s.dataI + bs.length)
      dataI := s.dataI + bs.length
      dataI_le := by simp; omega }
  else none

def setTail (s : RefGraph) (bs : List UInt8) : RefGraph :=
  if h : bs.length ≤ s.dataI then
    { s with
      data := s.data.take (s.dataI - bs.length) ++ bs ++ s.data.drop s.dataI
      dataI_le := by
        have := s.dataI_le
        simp
        omega }
  else s

lemma sub_le_sub_succ (a b : ℕ) : a - b ≤ a - (b + 1) + 1 := by omega

instance : GraphStorage RefGraph where
  clear := clear
  appendOp := appendOp
  appendData := appendData
  getData := getData
  setTail := setTail
  dataAvailable s := s.data.length - s.dataI
  opsAvailable s := s.ops.length - s.opsI
  canAppend s n := s.dataI + n.data.length < s.data.length
  opsAsSlice s := s.ops.take s.opsI
  dataAsSlice s := s.data.take s.dataI
  ops_clear _ := rfl
  data_clear _ := rfl
  ops_appendOp := by
    intro s op s' h
    unfold appendOp at h
    split at h
    · cases h
      rename_i hlt
      rw [List.take_add_one, List.take_set_of_le le_rfl]
      simp [hlt]
    · cases h
  data_appendOp := by
    intro s op s' h
    unfold appendOp at h
    split at h <;> cases h
    rfl
  exists_appendOp := by
    intro s op h
    exact ⟨_, dif_pos (Nat.lt_of_sub_pos h)⟩
  opsAvailable_appendOp := by
    intro s op s' h
    unfold appendOp at h
    split at h <;> cases h
    rw [List.length_set]
    exact sub_le_sub_succ _ _
  dataAvailable_appendOp := by
    intro s op s' h
    unfold appendOp at h
    split at h <;> cases h
    rfl
  ops_appendData := by
    intro s bs s' h
    unfold appendData at h
    split at h <;> cases h
    rfl
  data_appendData := by
    intro s bs s' h
    unfold appendData at h
    split at h
    · cases h
      have hlen : (s.data.take s.dataI ++ bs).length = s.dataI + bs.length := by
        rw [List.length_append, List.length_take, Nat.min_eq_left s.dataI_le]
      exact List.take_left' hlen
    · cases h
  ops_getData := by
    intro s n s' h
    unfold getData at h
    split at h <;> cases h
    rfl
  data_getData := by
    intro s n s' h
    unfold getData at h
    split at h
    · cases h
      refine ⟨(s.data.drop s.dataI).take n, ?_, ?_⟩
      · rw [List.length_take, List.length_drop]
        exact Nat.min_eq_left (Nat.le_sub_of_add_le' ‹_›)
      · exact List.take_add
    · cases h
  exists_getData := by
    intro s n h
    exact ⟨_, dif_pos (Nat.add_le_of_le_sub' s.dataI_le h)⟩
  ops_setTail := by
    intro s bs
    unfold setTail
    split <;> rfl
  data_setTail := by
    intro s bs h
    have hle := s.dataI_le
    have hlen : (s.data.take s.dataI).length = s.dataI := List.length_take_of_le hle
    rw [hlen] at h ⊢
    have htail : (s.data.take (s.dataI - bs.length) ++ bs).length = s.dataI := by
      rw [List.length_append, List.length_take, Nat.min_eq_left (Nat.le_trans (Nat.sub_le _ _) hle),
        Nat.sub_add_cancel h]
    rw [setTail, dif_pos h, List.take_left' htail, List.take_take, Nat.min_eq_left (Nat.sub_le _ _)]

end RefGraph

def asVecGraph {S : Type} [GraphStorage S] (s : S) : VecGraph :=
  ⟨GraphStorage.opsAsSlice s, GraphStorage.dataAsSlice s⟩

end Nyx
