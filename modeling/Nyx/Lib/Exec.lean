import Mathlib.Tactic.Common

/-!
# Computations with state and panics

`Exec ε σ α` is a computation over a state `σ` that returns a value or panics, and then keeps its
state. `Exec.Triple P m Q E`: started in `P` it returns in `Q` or panics in `E`.
-/

namespace Nyx

def Exec (ε σ α : Type) : Type := σ → Except ε α × σ

namespace Exec

variable {ε σ τ α β ι : Type}

def run (m : Exec ε σ α) (s : σ) : Except ε α × σ := m s

protected def pure (a : α) : Exec ε σ α := fun s => (.ok a, s)

protected def bind (m : Exec ε σ α) (k : α → Exec ε σ β) : Exec ε σ β := fun s =>
  match m s with
  | (.ok a, s') => k a s'
  | (.error e, s') => (.error e, s')

instance : Monad (Exec ε σ) where
  pure := Exec.pure
  bind := Exec.bind

def panic (e : ε) : Exec ε σ α := fun s => (.error e, s)

def gets (f : σ → α) : Exec ε σ α := fun s => (.ok (f s), s)

def modify (f : σ → σ) : Exec ε σ Unit := fun s => (.ok (), f s)

def unwrap (e : ε) : Option α → Exec ε σ α
  | some a => Exec.pure a
  | none => panic e

def zoom (get : σ → τ) (set : τ → σ → σ) (m : Exec ε τ α) : Exec ε σ α := fun s =>
  ((m (get s)).1, set (m (get s)).2 s)

def mapError {ε' : Type} (f : ε → ε') (m : Exec ε σ α) : Exec ε' σ α := fun s =>
  ((m s).1.mapError f, (m s).2)

def forEach : List α → (α → Exec ε σ Unit) → Exec ε σ Unit
  | [], _ => Exec.pure ()
  | a :: as, body => (body a).bind fun _ => forEach as body

/-- Run the body on every item in order until it answers `false`. The result says whether the
end of the list was reached. -/
def forWhile : List α → (α → Exec ε σ Bool) → Exec ε σ Bool
  | [], _ => Exec.pure true
  | a :: as, body => (body a).bind fun go => if go then forWhile as body else Exec.pure false

@[simp] lemma run_pure (a : α) (s : σ) : (pure a : Exec ε σ α).run s = (.ok a, s) := rfl

@[simp] lemma run_pure' (a : α) (s : σ) : (Exec.pure a : Exec ε σ α).run s = (.ok a, s) := rfl

@[simp] lemma run_panic (e : ε) (s : σ) : (panic e : Exec ε σ α).run s = (.error e, s) := rfl

@[simp] lemma run_gets (f : σ → α) (s : σ) : (gets f : Exec ε σ α).run s = (.ok (f s), s) := rfl

@[simp] lemma run_modify (f : σ → σ) (s : σ) : (modify f : Exec ε σ Unit).run s = (.ok (), f s) :=
  rfl

lemma run_zoom (get : σ → τ) (set : τ → σ → σ) (m : Exec ε τ α) (s : σ) :
    (zoom get set m).run s = ((m.run (get s)).1, set (m.run (get s)).2 s) := rfl

lemma run_bind (m : Exec ε σ α) (k : α → Exec ε σ β) (s : σ) :
    (m >>= k).run s = match m.run s with
      | (.ok a, s') => (k a).run s'
      | (.error e, s') => (.error e, s') := rfl

lemma run_bind' (m : Exec ε σ α) (k : α → Exec ε σ β) (s : σ) :
    (m.bind k).run s = match m.run s with
      | (.ok a, s') => (k a).run s'
      | (.error e, s') => (.error e, s') := rfl

variable {m : Exec ε σ α} {k : α → Exec ε σ β}

lemma run_bind_ok {s s' : σ} {a : α}
    (h : m.run s = (.ok a, s')) : (m >>= k).run s = (k a).run s' := by
  rw [run_bind, h]

lemma run_bind_error {s s' : σ} {e : ε}
    (h : m.run s = (.error e, s')) : (m >>= k).run s = (.error e, s') := by
  rw [run_bind, h]

lemma run_gets_bind (f : σ → α) (k : α → Exec ε σ β) (s : σ) :
    (gets f >>= k).run s = (k (f s)).run s := rfl

lemma run_unwrap_bind {e : ε} {o : Option α} {a : α} (h : o = some a) (k : α → Exec ε σ β) (s : σ) :
    (unwrap e o >>= k).run s = (k a).run s := by
  subst h
  rfl

lemma run_modify_bind (f : σ → σ) (k : Unit → Exec ε σ β) (s : σ) :
    (modify f >>= k).run s = (k ()).run (f s) := rfl

lemma bind_assoc {γ : Type} (m : Exec ε σ α) (k : α → Exec ε σ β) (l : β → Exec ε σ γ) :
    (m >>= k) >>= l = m >>= fun a => k a >>= l := by
  funext s
  show (m >>= k >>= l).run s = (m >>= fun a => k a >>= l).run s
  simp only [run_bind]
  rcases m.run s with ⟨_ | a, s'⟩ <;> rfl

lemma pure_bind (a : α) (k : α → Exec ε σ β) : (pure a : Exec ε σ α) >>= k = k a := rfl

lemma bind_unit (m : Exec ε σ Unit) : (m >>= fun _ => pure ()) = m := by
  funext s
  show (m >>= fun _ => pure ()).run s = m.run s
  rw [run_bind]
  rcases m.run s with ⟨_ | a, s'⟩ <;> rfl

lemma run_bind_eq_ok {s t : σ} {b : β} (h : (m >>= k).run s = (.ok b, t)) :
    ∃ a s', m.run s = (.ok a, s') ∧ (k a).run s' = (.ok b, t) := by
  rw [run_bind] at h
  rcases hm : m.run s with ⟨r, s'⟩
  rw [hm] at h
  cases r with
  | ok a => exact ⟨a, s', rfl, h⟩
  | error e => simp at h

lemma forEach_append (as bs : List α) (body : α → Exec ε σ Unit) :
    forEach (as ++ bs) body = (forEach as body >>= fun _ => forEach bs body) := by
  induction as with
  | nil => rfl
  | cons a as ih =>
    show (body a >>= fun _ => forEach (as ++ bs) body) =
      ((body a >>= fun _ => forEach as body) >>= fun _ => forEach bs body)
    rw [ih, bind_assoc]

def Triple (P : σ → Prop) (m : Exec ε σ α) (Q : α → σ → Prop) (E : ε → σ → Prop) : Prop :=
  ∀ s, P s → match m.run s with
    | (.ok a, s') => Q a s'
    | (.error e, s') => E e s'

variable {P P' : σ → Prop} {Q Q' : α → σ → Prop} {E E' : ε → σ → Prop}

lemma Triple.ok (h : Triple P m Q E) {s s' : σ} {a : α} (hs : P s)
    (hr : m.run s = (.ok a, s')) : Q a s' := by
  have := h s hs
  rwa [hr] at this

lemma Triple.error (h : Triple P m Q E) {s s' : σ} {e : ε} (hs : P s)
    (hr : m.run s = (.error e, s')) : E e s' := by
  have := h s hs
  rwa [hr] at this

lemma Triple.pre (h : Triple P m Q E) (hP : ∀ s, P' s → P s) : Triple P' m Q E :=
  fun s hs => h s (hP s hs)

lemma Triple.post (h : Triple P m Q E) (hQ : ∀ a s, Q a s → Q' a s) : Triple P m Q' E := by
  intro s hs
  have hm := h s hs
  rcases hr : m.run s with ⟨r, s'⟩
  rw [hr] at hm
  cases r with
  | ok a => exact hQ a s' hm
  | error e => exact hm

lemma Triple.pure {a : α} (h : ∀ s, P s → Q a s) : Triple P (Exec.pure a : Exec ε σ α) Q E :=
  fun s hs => h s hs

lemma Triple.skip {a : α} : Triple P (Exec.pure a : Exec ε σ α) (fun _ => P) E :=
  Triple.pure fun _ hs => hs

lemma Triple.gets {f : σ → α} (h : ∀ s, P s → Q (f s) s) : Triple P (gets f : Exec ε σ α) Q E :=
  fun s hs => h s hs

lemma Triple.modify {f : σ → σ} {Q : Unit → σ → Prop} (h : ∀ s, P s → Q () (f s)) :
    Triple P (modify f : Exec ε σ Unit) Q E :=
  fun s hs => h s hs

lemma Triple.bind {R : β → σ → Prop}
    (hm : Triple P m Q E) (hk : ∀ a, Triple (Q a) (k a) R E) : Triple P (m >>= k) R E := by
  intro s hs
  have h := hm s hs
  rw [run_bind]
  rcases hr : m.run s with ⟨r, s'⟩
  rw [hr] at h
  cases r with
  | ok a => exact hk a s' h
  | error e => exact h

lemma Triple.zoom {get : σ → τ} {set : τ → σ → σ} {m : Exec ε τ α} {R : τ → Prop}
    {S : α → τ → Prop} {F : ε → τ → Prop} (hm : Triple R m S F) (hP : ∀ s, P s → R (get s))
    (hQ : ∀ a t s, P s → S a t → Q a (set t s)) (hE : ∀ e t s, P s → F e t → E e (set t s)) :
    Triple P (zoom get set m) Q E := by
  intro s hs
  have h := hm (get s) (hP s hs)
  rw [run_zoom]
  rcases hr : m.run (get s) with ⟨r, t⟩
  rw [hr] at h
  cases r with
  | ok a => exact hQ a t s hs h
  | error e => exact hE e t s hs h

lemma Triple.forEach_const {body : α → Exec ε σ Unit} {I : σ → Prop} {as : List α}
    (hbody : ∀ a ∈ as, Triple I (body a) (fun _ => I) E) :
    Triple I (Exec.forEach as body) (fun _ => I) E := by
  induction as with
  | nil => exact Triple.pure (fun _ h => h)
  | cons a as ih =>
    exact Triple.bind (hbody a (by simp)) (fun _ => ih (fun b hb => hbody b (by simp [hb])))

lemma Triple.forWhile_const {body : α → Exec ε σ Bool} {I : σ → Prop} {as : List α}
    (hbody : ∀ a ∈ as, Triple I (body a) (fun _ => I) E) :
    Triple I (Exec.forWhile as body) (fun _ => I) E := by
  induction as with
  | nil => exact Triple.pure (fun _ h => h)
  | cons a as ih =>
    refine Triple.bind (hbody a (by simp)) (fun go => ?_)
    cases go with
    | false => exact Triple.pure (fun _ h => h)
    | true => exact ih (fun b hb => hbody b (by simp [hb]))

/-- The computation keeps the invariant, whatever its outcome. -/
def Maintains (I : σ → Prop) (m : Exec ε σ α) : Prop := Triple I m (fun _ => I) (fun _ => I)

variable {I : σ → Prop}

lemma Maintains.of_final (h : ∀ s, I s → I (m.run s).2) : Maintains I m := by
  intro s hs
  have hfinal := h s hs
  rcases hr : m.run s with ⟨_ | _, s'⟩ <;> rw [hr] at hfinal <;> exact hfinal

lemma Maintains.final (h : Maintains I m) (s : σ) (hs : I s) : I (m.run s).2 := by
  have hfinal := h s hs
  rcases hr : m.run s with ⟨_ | _, s'⟩ <;> rw [hr] at hfinal <;> exact hfinal

lemma Maintains.pure (a : α) : Maintains I (Pure.pure a : Exec ε σ α) := fun _ hs => hs

lemma Maintains.panic (e : ε) : Maintains I (Exec.panic e : Exec ε σ α) := fun _ hs => hs

lemma Maintains.gets (f : σ → α) : Maintains I (Exec.gets f : Exec ε σ α) := fun _ hs => hs

lemma Maintains.unwrap (e : ε) (o : Option α) : Maintains I (Exec.unwrap e o : Exec ε σ α) := by
  cases o <;> exact fun _ hs => hs

lemma Maintains.bind (hm : Maintains I m)
    (hk : ∀ a, Maintains I (k a)) : Maintains I (m >>= k) := Triple.bind hm hk

lemma Maintains.ite {c : Prop} [Decidable c] {m' : Exec ε σ α} (hm : c → Maintains I m)
    (hm' : ¬c → Maintains I m') : Maintains I (if c then m else m') := by
  split
  · exact hm ‹c›
  · exact hm' ‹¬c›

/-- The computation leaves the part `f` of the state as it is, whatever its outcome. -/
def Keeps (f : σ → ι) (m : Exec ε σ α) : Prop := ∀ s, f (m.run s).2 = f s

variable {f : σ → ι}

/-- What only depends on a part that is kept stays true. -/
lemma Keeps.triple (h : Keeps f m) (P : ι → Prop) (hE : ∀ e s, P (f s) → E e s) :
    Triple (fun s => P (f s)) m (fun _ s => P (f s)) E := by
  intro s hs
  have hf : P (f (m.run s).2) := by rw [h s]; exact hs
  rcases hr : m.run s with ⟨r, s'⟩
  rw [hr] at hf
  cases r with
  | ok a => exact hf
  | error e => exact hE e s' hf

lemma Keeps.pure (a : α) : Keeps f (Pure.pure a : Exec ε σ α) := fun _ => rfl

lemma Keeps.panic (e : ε) : Keeps f (Exec.panic e : Exec ε σ α) := fun _ => rfl

lemma Keeps.gets (g : σ → α) : Keeps f (Exec.gets g : Exec ε σ α) := fun _ => rfl

lemma Keeps.unwrap (e : ε) (o : Option α) : Keeps f (Exec.unwrap e o : Exec ε σ α) := by
  cases o <;> exact fun _ => rfl

lemma Keeps.bind (hm : Keeps f m) (hk : ∀ a, Keeps f (k a)) : Keeps f (m >>= k) := by
  intro s
  have h := hm s
  rw [run_bind]
  rcases hr : m.run s with ⟨r, s'⟩
  rw [hr] at h
  cases r with
  | ok a => exact (hk a s').trans h
  | error e => exact h

lemma Keeps.ite {c : Prop} [Decidable c] {m' : Exec ε σ α} (hm : Keeps f m)
    (hm' : Keeps f m') : Keeps f (if c then m else m') := by
  split
  · exact hm
  · exact hm'

/-- A computation on a component keeps everything that does not depend on it. -/
lemma Keeps.zoom_frame {get : σ → τ} {set : τ → σ → σ} (m : Exec ε τ α)
    (hset : ∀ t s, f (set t s) = f s) : Keeps f (Exec.zoom get set m) := fun s => hset _ s

end Exec

@[simp] lemma except_ok_bind {ε α β : Type} (a : α) (k : α → Except ε β) :
    (Except.ok a >>= k) = k a := rfl

@[simp] lemma except_error_bind {ε α β : Type} (e : ε) (k : α → Except ε β) :
    (Except.error e >>= k) = .error e := rfl

lemma except_bind_eq_ok {ε α β : Type} {x : Except ε α} {k : α → Except ε β} {b : β} :
    (x >>= k) = .ok b ↔ ∃ a, x = .ok a ∧ k a = .ok b := by
  cases x <;> simp

/-- What an iterator yields: its items in order, then the panic that stops it, if any. -/
structure Iter (ε α : Type) where
  items : List α
  stop : Option ε

namespace Iter

variable {ε σ α : Type}

/-- Unroll an iterator from its `next` function. The fuel bounds the number of items. -/
def unroll {ι : Type} (next : ι → Except ε (Option (α × ι))) : ℕ → ι → Iter ε α
  | 0, _ => ⟨[], none⟩
  | fuel + 1, it =>
    match next it with
    | .error e => ⟨[], some e⟩
    | .ok none => ⟨[], none⟩
    | .ok (some (a, it')) => ⟨a :: (unroll next fuel it').items, (unroll next fuel it').stop⟩

def take (n : ℕ) (it : Iter ε α) : Iter ε α :=
  if n ≤ it.items.length then ⟨it.items.take n, none⟩ else it

def skip (n : ℕ) (it : Iter ε α) : Iter ε α := ⟨it.items.drop n, it.stop⟩

def enumerate (it : Iter ε α) : Iter ε (ℕ × α) := ⟨it.items.zipIdx.map Prod.swap, it.stop⟩

def finish (it : Iter ε α) : Exec ε σ Unit :=
  match it.stop with
  | none => Exec.pure ()
  | some e => Exec.panic e

/-- `for a in it { body }`. -/
def forEach (it : Iter ε α) (body : α → Exec ε σ Unit) : Exec ε σ Unit :=
  (Exec.forEach it.items body).bind fun _ => it.finish

/-- `for a in it { if !body { return } }`. The result says whether the loop ran to its end. -/
def forWhile (it : Iter ε α) (body : α → Exec ε σ Bool) : Exec ε σ Bool :=
  (Exec.forWhile it.items body).bind fun go =>
    if go then it.finish.bind fun _ => Exec.pure true else Exec.pure false

def foldlM {β : Type} (f : β → α → Except ε β) (b : β) (it : Iter ε α) : Except ε β := do
  let b ← it.items.foldlM f b
  match it.stop with
  | none => .ok b
  | some e => .error e

end Iter

end Nyx
