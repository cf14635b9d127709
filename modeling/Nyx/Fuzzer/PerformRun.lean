import Nyx.Fuzzer.Bitmap

/-!
# Runs of many fuzzer threads

`perform_run` of `rust_fuzzer/src/fuzzer.rs`: a bitmap is checked against the thread's and, if it is
new there, against the queue's. Other threads may run in between.
-/

namespace Nyx.Fuzzer

open Function

/-- The bitmaps of a thread, and its run in progress. -/
structure Thread where
  bitmaps : BitmapHandler
  /-- The run that was new for the thread and is still to be checked against the queue. -/
  checked : Option (List UInt8 × ExitReason)

/-- The thread has raised a byte of the queue's bitmap. -/
structure Report (ι : Type) where
  thread : ι
  etype : ExitReason
  reason : StorageReason

/-- The bitmaps of queue and threads, and what has happened. -/
structure System (ι : Type) where
  queue : BitmapHandler
  threads : ι → Thread
  runs : List (List UInt8 × ExitReason)
  reports : List (Report ι)

namespace System

variable {ι : Type} [DecidableEq ι]

def new (ι : Type) (size : ℕ) : System ι where
  queue := BitmapHandler.new size
  threads _ := ⟨BitmapHandler.new size, none⟩
  runs := []
  reports := []

def localCheck (s : System ι) (t : ι) (run : List UInt8) (etype : ExitReason) :
    Except LengthMismatch (System ι) :=
  ((s.threads t).bitmaps.checkNewBytes run etype).map fun r => { s with
    threads := update s.threads t
      ⟨r.2, if r.1.isSome then some (run, etype) else none⟩
    runs := (run, etype) :: s.runs }

def globalCheck (s : System ι) (t : ι) (run : List UInt8) (etype : ExitReason) :
    Except LengthMismatch (System ι) :=
  (s.queue.checkNewBytes run etype).map fun r => { s with
    queue := r.2
    threads := update s.threads t ⟨(s.threads t).bitmaps, none⟩
    reports := s.reports ++ (r.1.getD []).map fun reason => ⟨t, etype, reason⟩ }

/-- The states that some interleaving of the threads leads to. The buffer of a run and the bitmaps
all have the configured size. -/
inductive Reachable (size : ℕ) : System ι → Prop
  | init : Reachable size (new ι size)
  | localCheck {s s' : System ι} {t : ι} {run : List UInt8} {etype : ExitReason}
      (before : Reachable size s) (idle : (s.threads t).checked = none)
      (buffer : run.length = size) (check : s.localCheck t run etype = .ok s') : Reachable size s'
  | globalCheck {s s' : System ι} {t : ι} {run : List UInt8} {etype : ExitReason}
      (before : Reachable size s) (waiting : (s.threads t).checked = some (run, etype))
      (check : s.globalCheck t run etype = .ok s') : Reachable size s'

/-- All bitmaps have the same size. -/
structure Sized (size : ℕ) (s : System ι) : Prop where
  queue : s.queue.Sized size
  threads : ∀ t, (s.threads t).bitmaps.Sized size
  checked : ∀ t run etype, (s.threads t).checked = some (run, etype) → run.length = size

def abs (s : System ι) : TwoLevel ι (ExitClass → ℕ → ℕ) where
  shared := s.queue.level
  own t := (s.threads t).bitmaps.level
  pending t := (s.threads t).checked.map fun r => runLevel r.1 r.2
  seen := s.runs.map fun r => runLevel r.1 r.2

lemma abs_update (s : System ι) (queue : BitmapHandler) (t : ι) (th : Thread)
    (runs : List (List UInt8 × ExitReason)) (reports : List (Report ι)) :
    abs ⟨queue, update s.threads t th, runs, reports⟩ =
      ⟨queue.level, update s.abs.own t th.bitmaps.level,
        update s.abs.pending t (th.checked.map fun r => runLevel r.1 r.2),
        runs.map fun r => runLevel r.1 r.2⟩ := by
  have hown : (fun u => (update s.threads t th u).bitmaps.level) =
      update s.abs.own t th.bitmaps.level := by
    funext u
    by_cases hu : u = t
    · subst hu
      simp
    · simp [hu, abs]
  have hpending : (fun u => (update s.threads t th u).checked.map
      fun r => runLevel r.1 r.2) =
      update s.abs.pending t (th.checked.map fun r => runLevel r.1 r.2) := by
    funext u
    by_cases hu : u = t
    · subst hu
      simp
    · simp [hu, abs]
  simp only [abs] at hown hpending ⊢
  rw [hown, hpending]

lemma Sized.update {size : ℕ} {s : System ι} (hs : s.Sized size) (t : ι) (th : Thread)
    {queue : BitmapHandler} (hqueue : queue.Sized size) (hth : th.bitmaps.Sized size)
    (hchecked : ∀ run etype, th.checked = some (run, etype) → run.length = size)
    (runs : List (List UInt8 × ExitReason)) (reports : List (Report ι)) :
    Sized size ⟨queue, update s.threads t th, runs, reports⟩ where
  queue := hqueue
  threads := by
    intro u
    by_cases hu : u = t
    · subst hu
      simpa using hth
    · simpa [hu] using hs.threads u
  checked := by
    intro u run etype h
    by_cases hu : u = t
    · subst hu
      exact hchecked run etype (by simpa using h)
    · exact hs.checked u run etype (by simpa [hu] using h)

lemma localCheck_spec {size : ℕ} {s : System ι} (hs : s.Sized size) {t : ι} {run : List UInt8}
    (idle : (s.threads t).checked = none) (hrun : run.length = size) (etype : ExitReason) :
    ∃ s', s.localCheck t run etype = .ok s' ∧ s'.Sized size ∧ TwoLevel.Step s.abs s'.abs ∧
      s'.queue = s.queue ∧ s'.reports = s.reports := by
  obtain ⟨b, hcheck, hb, hlevel⟩ := BitmapHandler.checkNewBytes_spec (hs.threads t) hrun etype
  have hnone := BitmapHandler.report_eq_none_iff (hs.threads t) hrun etype
  have hpending : s.abs.pending t = none := by simp [abs, idle]
  have hlocal : s.localCheck t run etype = .ok { s with
      threads := update s.threads t
        ⟨b, if ((s.threads t).bitmaps.report run etype).isSome then some (run, etype) else none⟩
      runs := (run, etype) :: s.runs } := by
    rw [localCheck, hcheck]
    rfl
  refine ⟨_, hlocal, ?_, ?_, rfl, rfl⟩
  · apply hs.update t _ hs.queue hb
    intro run' etype' h
    by_cases hr : ((s.threads t).bitmaps.report run etype).isSome
    · have hpair : (run, etype) = (run', etype') := by simpa [hr] using h
      rw [← (Prod.mk.inj hpair).1, hrun]
    · simp [hr] at h
  · rw [abs_update]
    cases hr : (s.threads t).bitmaps.report run etype with
    | none =>
      have hle : runLevel run etype ≤ s.abs.own t := hnone.mp hr
      have hsame : b.level = s.abs.own t := by rw [hlevel]; exact sup_eq_left.mpr hle
      have hidle : update s.abs.pending t none = s.abs.pending := by
        rw [← hpending, update_eq_self]
      simp only [hsame, update_eq_self, Option.isSome_none, Bool.false_eq_true, if_false,
        Option.map_none, hidle]
      exact TwoLevel.Step.discard hpending hle
    | some reasons =>
      have hstep := TwoLevel.Step.keep (a := runLevel run etype) hpending
      rw [hlevel]
      exact hstep

lemma globalCheck_spec {size : ℕ} {s : System ι} (hs : s.Sized size) {t : ι} {run : List UInt8}
    {etype : ExitReason} (waiting : (s.threads t).checked = some (run, etype)) :
    ∃ s', s.globalCheck t run etype = .ok s' ∧ s'.Sized size ∧ TwoLevel.Step s.abs s'.abs ∧
      s'.queue.level = s.queue.level ⊔ runLevel run etype ∧
      s'.reports = s.reports ++
        ((s.queue.report run etype).getD []).map fun reason => ⟨t, etype, reason⟩ := by
  have hrun := hs.checked t run etype waiting
  obtain ⟨b, hcheck, hb, hlevel⟩ := BitmapHandler.checkNewBytes_spec hs.queue hrun etype
  have hglobal : s.globalCheck t run etype = .ok { s with
      queue := b
      threads := update s.threads t ⟨(s.threads t).bitmaps, none⟩
      reports := s.reports ++
        ((s.queue.report run etype).getD []).map fun reason => ⟨t, etype, reason⟩ } := by
    rw [globalCheck, hcheck]
    rfl
  refine ⟨_, hglobal, ?_, ?_, hlevel, rfl⟩
  · apply hs.update t ⟨(s.threads t).bitmaps, none⟩ hb (hs.threads t)
    intro run' etype' h
    cases h
  · have hpending : s.abs.pending t = some (runLevel run etype) := by simp [abs, waiting]
    have hstep := TwoLevel.Step.publish hpending
    have hown : update s.abs.own t (s.threads t).bitmaps.level = s.abs.own :=
      update_eq_self t s.abs.own
    rw [abs_update, hlevel, hown]
    exact hstep

omit [DecidableEq ι] in
lemma sized_new (size : ℕ) : (new ι size).Sized size where
  queue := BitmapHandler.sized_new size
  threads _ := BitmapHandler.sized_new size
  checked := by simp [new]

omit [DecidableEq ι] in
lemma abs_new (size : ℕ) : (new ι size).abs = ⟨⊥, fun _ => ⊥, fun _ => none, []⟩ := by
  simp [abs, new, BitmapHandler.level_new]

theorem Reachable.sound {size : ℕ} {s : System ι} (h : Reachable size s) :
    s.Sized size ∧ s.abs.Sound := by
  induction h with
  | init =>
    refine ⟨sized_new size, ?_⟩
    rw [abs_new]
    exact TwoLevel.sound_bot
  | @localCheck s s' t run etype _ idle buffer check ih =>
    obtain ⟨s'', hcheck, hsized, hstep, -, -⟩ := localCheck_spec ih.1 idle buffer etype
    have heq : s' = s'' := Except.ok.inj (check.symm.trans hcheck)
    subst heq
    exact ⟨hsized, ih.2.step hstep⟩
  | @globalCheck s s' t run etype _ waiting check ih =>
    obtain ⟨s'', hcheck, hsized, hstep, -, -⟩ := globalCheck_spec ih.1 waiting
    have heq : s' = s'' := Except.ok.inj (check.symm.trans hcheck)
    subst heq
    exact ⟨hsized, ih.2.step hstep⟩

end System

def Linked : UInt8 → List StorageReason → UInt8 → Prop
  | first, [], last => first = last
  | first, r :: rs, last => r.old = first ∧ r.old < r.new ∧ Linked r.new rs last

namespace Linked

lemma append {a b c : UInt8} {xs ys : List StorageReason} (hx : Linked a xs b)
    (hy : Linked b ys c) : Linked a (xs ++ ys) c := by
  induction xs generalizing a with
  | nil =>
    have hab : a = b := hx
    rwa [hab]
  | cons r rs ih => exact ⟨hx.1, hx.2.1, ih hx.2.2⟩

lemma lt_new {a b : UInt8} {rs : List StorageReason} (h : Linked a rs b) : ∀ r ∈ rs, a < r.new := by
  induction rs generalizing a with
  | nil => simp
  | cons r rs ih =>
    have hfirst : a < r.new := h.1 ▸ h.2.1
    intro r' hr'
    rcases List.mem_cons.mp hr' with rfl | hr'
    · exact hfirst
    · exact UInt8.lt_trans hfirst (ih h.2.2 r' hr')

lemma nodup {a b : UInt8} {rs : List StorageReason} (h : Linked a rs b) : rs.Nodup := by
  induction rs generalizing a with
  | nil => exact List.nodup_nil
  | cons r rs ih =>
    apply List.nodup_cons.mpr
    constructor
    · intro hmem
      exact UInt8.lt_irrefl r.new (lt_new h.2.2 r hmem)
    · exact ih h.2.2

lemma exists_new {a b : UInt8} {rs : List StorageReason} (h : Linked a rs b) (hne : a ≠ b) :
    ∃ r ∈ rs, r.new = b := by
  induction rs generalizing a with
  | nil => exact absurd h hne
  | cons r rs ih =>
    by_cases hb : r.new = b
    · exact ⟨r, List.mem_cons_self, hb⟩
    · obtain ⟨r', hr', hnew⟩ := ih h.2.2 hb
      exact ⟨r', List.mem_cons_of_mem r hr', hnew⟩

end Linked

namespace BitmapHandler

lemma byteAt_of_level {h h' : BitmapHandler} {c : ExitClass} {i : ℕ}
    (hlevel : h'.level c i = h.level c i) :
    byteAt (h'.bitmap c).bits i = byteAt (h.bitmap c).bits i :=
  UInt8.toNat_inj.mp hlevel

lemma linked_report {size : ℕ} {h h' : BitmapHandler} (hs : h.Sized size) {run : List UInt8}
    (hrun : run.length = size) {etype : ExitReason} {c : ExitClass}
    (hc : etype.exitClass = some c) (hlevel : h'.level = h.level ⊔ runLevel run etype) (i : ℕ) :
    Linked (byteAt (h.bitmap c).bits i) (((h.report run etype).getD []).filter (·.index = i))
      (byteAt (h'.bitmap c).bits i) := by
  have hlen : (h.bitmap c).bits.length = run.length := by rw [hs c, hrun]
  have hreasons : (h.report run etype).getD [] = Bitmap.newBytes 0 (h.bitmap c).bits run := by
    by_cases hnil : Bitmap.newBytes 0 (h.bitmap c).bits run = []
    · simp [report, hc, Bitmap.pushed, hnil]
    · simp [report, hc, Bitmap.pushed, hnil]
  have hentries := Bitmap.filter_newBytes hlen 0 i
  rw [Nat.zero_add] at hentries
  have hmax : (byteAt (h'.bitmap c).bits i).toNat =
      max (byteAt (h.bitmap c).bits i).toNat (byteAt run i).toNat := by
    have hat := congrFun (congrFun hlevel c) i
    simpa [level, runLevel, hc] using hat
  rw [hreasons, hentries]
  by_cases hlt : byteAt (h.bitmap c).bits i < byteAt run i
  · rw [if_pos hlt]
    have hnew : byteAt (h'.bitmap c).bits i = byteAt run i := by
      have hlt' := UInt8.lt_iff_toNat_lt.mp hlt
      apply UInt8.toNat_inj.mp
      omega
    exact ⟨rfl, hlt, hnew.symm⟩
  · rw [if_neg hlt]
    have hle := UInt8.le_iff_toNat_le.mp (UInt8.not_lt.mp hlt)
    apply UInt8.toNat_inj.mp
    omega

end BitmapHandler

namespace System

variable {ι : Type} [DecidableEq ι]

def reportsOf (s : System ι) (c : ExitClass) (i : ℕ) : List StorageReason :=
  (s.reports.filter fun p => p.etype.exitClass = some c ∧ p.reason.index = i).map (·.reason)

omit [DecidableEq ι] in
lemma map_filter_reports (t : ι) (etype : ExitReason) (c : ExitClass) (i : ℕ)
    (reasons : List StorageReason) :
    ((reasons.map (Report.mk t etype)).filter
        fun p => p.etype.exitClass = some c ∧ p.reason.index = i).map (·.reason) =
      if etype.exitClass = some c then reasons.filter (·.index = i) else [] := by
  induction reasons with
  | nil => simp
  | cons r rs ih =>
    by_cases hc : etype.exitClass = some c
    · by_cases hi : r.index = i
      · simpa [hc, hi] using ih
      · simpa [hc, hi] using ih
    · simp [hc]

theorem Reachable.linked {size : ℕ} {s : System ι} (h : Reachable size s) (c : ExitClass)
    (i : ℕ) : Linked 0 (s.reportsOf c i) (byteAt (s.queue.bitmap c).bits i) := by
  induction h with
  | init => simp [new, reportsOf, Linked, Bitmap.new]
  | @localCheck s s' t run etype before idle buffer check ih =>
    obtain ⟨s'', hcheck, -, -, hqueue, hreports⟩ :=
      localCheck_spec before.sound.1 idle buffer etype
    have heq : s' = s'' := Except.ok.inj (check.symm.trans hcheck)
    subst heq
    rw [reportsOf, hreports, hqueue]
    exact ih
  | @globalCheck s s' t run etype before waiting check ih =>
    have hsized := before.sound.1
    obtain ⟨s'', hcheck, -, -, hlevel, hreports⟩ := globalCheck_spec hsized waiting
    have heq : s' = s'' := Except.ok.inj (check.symm.trans hcheck)
    subst heq
    rw [reportsOf, hreports, List.filter_append, List.map_append, map_filter_reports]
    apply ih.append
    by_cases hc : etype.exitClass = some c
    · rw [if_pos hc]
      exact BitmapHandler.linked_report hsized.queue (hsized.checked t run etype waiting) hc
        hlevel i
    · rw [if_neg hc]
      have hsame : s'.queue.level c i = s.queue.level c i := by
        rw [hlevel]
        simp [runLevel, hc]
      exact (BitmapHandler.byteAt_of_level hsame).symm

def maxByte (runs : List (List UInt8 × ExitReason)) (c : ExitClass) (i : ℕ) : UInt8 :=
  runs.foldr (fun r m => if r.2.exitClass = some c then max (byteAt r.1 i) m else m) 0

lemma toNat_maxByte (runs : List (List UInt8 × ExitReason)) (c : ExitClass) (i : ℕ) :
    (maxByte runs c i).toNat =
      ((runs.map fun r => runLevel r.1 r.2).foldr (· ⊔ ·) ⊥) c i := by
  induction runs with
  | nil => rfl
  | cons r runs ih =>
    have hmax : ∀ a b : UInt8, (max a b).toNat = max a.toNat b.toNat := by
      intro a b
      rw [UInt8.max_def]
      by_cases hab : a ≤ b
      · rw [if_pos hab, max_eq_right (UInt8.le_iff_toNat_le.mp hab)]
      · have hba := UInt8.lt_iff_toNat_lt.mp (UInt8.not_le.mp hab)
        rw [if_neg hab, max_eq_left hba.le]
    by_cases hc : r.2.exitClass = some c
    · simp only [maxByte, List.foldr_cons, List.map_cons, Pi.sup_apply] at ih ⊢
      simp [hc, hmax, ih, runLevel]
    · simp only [maxByte, List.foldr_cons, List.map_cons, Pi.sup_apply] at ih ⊢
      simp [hc, ih, runLevel]

def Quiet (s : System ι) : Prop := ∀ t, (s.threads t).checked = none

/-- Between runs the bitmaps say what the runs were; every raise is reported once. -/
structure Coherent (size : ℕ) (s : System ι) : Prop where
  local_le : s.Quiet → ∀ t c i,
    byteAt ((s.threads t).bitmaps.bitmap c).bits i ≤ byteAt (s.queue.bitmap c).bits i
  queue_eq : s.Quiet → ∀ c i, byteAt (s.queue.bitmap c).bits i = maxByte s.runs c i
  not_discarded : ∀ t run etype c i, (s.threads t).checked = none → run.length = size →
    etype.exitClass = some c → byteAt (s.queue.bitmap c).bits i < byteAt run i →
    ∃ reasons bitmaps,
      (s.threads t).bitmaps.checkNewBytes run etype = .ok (some reasons, bitmaps)
  linked : ∀ c i, Linked 0 (s.reportsOf c i) (byteAt (s.queue.bitmap c).bits i)
  reported_once : ∀ c i, ∀ r ∈ s.reportsOf c i, ∃ p : Report ι,
    (s.reports.filter fun p => p.etype.exitClass = some c ∧ p.reason = r) = [p]

omit [DecidableEq ι] in
lemma reported_once_of_nodup {s : System ι} {c : ExitClass} {i : ℕ}
    (hnodup : (s.reportsOf c i).Nodup) {r : StorageReason} (hr : r ∈ s.reportsOf c i) :
    ∃ p : Report ι, (s.reports.filter fun p => p.etype.exitClass = some c ∧ p.reason = r) = [p] := by
  apply List.length_eq_one_iff.mp
  have hindex : r.index = i := by
    obtain ⟨p, hp, rfl⟩ := List.mem_map.mp hr
    have hcond := (List.mem_filter.mp hp).2
    simp at hcond
    exact hcond.2
  have hcount : (s.reportsOf c i).count r = 1 := List.count_eq_one_of_mem hnodup hr
  rw [← hcount, reportsOf, List.count_eq_length_filter, List.filter_map, List.length_map,
    List.filter_filter]
  congr 1
  apply List.filter_congr
  intro p _
  by_cases hp : p.reason = r
  · simp [hp, hindex]
  · simp [hp]

/-- Whatever the threads do in whatever order: between runs the thread bitmaps are below those of
the queue, which are the maximum of all runs; no run that is new for the queue is dropped; and the
reported bytes of an index are one increasing chain. -/
theorem bitmaps_coherent {size : ℕ} {s : System ι} (h : Reachable size s) : s.Coherent size where
  local_le := by
    intro quiet t c i
    have hidle : s.abs.pending t = none := by simp [abs, quiet t]
    exact UInt8.le_iff_toNat_le.mpr (h.sound.2.own_le_shared hidle c i)
  queue_eq := by
    intro quiet c i
    have hidle : ∀ t, s.abs.pending t = none := fun t => by simp [abs, quiet t]
    have hshared := congrFun (congrFun (h.sound.2.shared_eq hidle) c) i
    apply UInt8.toNat_inj.mp
    rw [toNat_maxByte]
    exact hshared
  not_discarded := by
    intro t run etype c i idle hrun hc hlt
    have hsized := h.sound.1.threads t
    obtain ⟨b, hcheck, -, -⟩ := BitmapHandler.checkNewBytes_spec hsized hrun etype
    have hidle : s.abs.pending t = none := by simp [abs, idle]
    have hbelow := h.sound.2.own_le_shared hidle c i
    cases hreport : (s.threads t).bitmaps.report run etype with
    | some reasons => exact ⟨reasons, b, by rw [hcheck, hreport]⟩
    | none =>
      -- nothing new for the thread: then the run is below the thread and so below the queue
      have hle := (BitmapHandler.report_eq_none_iff hsized hrun etype).mp hreport c i
      have hrunLevel : runLevel run etype c i = (byteAt run i).toNat := by simp [runLevel, hc]
      have hnotlt : (byteAt run i).toNat ≤ (byteAt (s.queue.bitmap c).bits i).toNat :=
        hrunLevel ▸ hle.trans hbelow
      have hlt' := UInt8.lt_iff_toNat_lt.mp hlt
      omega
  linked := h.linked
  reported_once c i r hr := reported_once_of_nodup (h.linked c i).nodup hr

theorem bitmaps_coherent_twoThreads : ∃ s : System Bool,
    Reachable 2 s ∧ s.Coherent 2 ∧ s.queue.normal.bits = [3, 5] ∧
      s.reportsOf .normal 0 = [⟨0, 0, 1⟩, ⟨0, 1, 3⟩] := by
  have first := @Reachable.localCheck Bool _ 2 _ _ false [3, 0] (.normal 0) .init rfl rfl rfl
  have second := @Reachable.localCheck Bool _ 2 _ _ true [1, 5] (.normal 0) first rfl rfl rfl
  have third : Reachable 2 _ := .globalCheck (t := true) second rfl rfl
  have fourth : Reachable 2 _ := .globalCheck (t := false) third rfl rfl
  exact ⟨_, fourth, bitmaps_coherent fourth, by decide +kernel, by decide +kernel⟩

end System

end Nyx.Fuzzer
