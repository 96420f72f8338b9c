import NetworkingHowto.Reachable
import Mathlib.Algebra.BigOperators.Group.Finset
import Mathlib.Algebra.Order.Ring.Nat
import Mathlib.Data.Fintype.Card

/-! The spinlocks of `tas-lock.c` and `ttas-lock.c` over every interleaving. -/
namespace NetworkingHowto.Sync.Spinlock

def NUM_ITERATIONS : Nat := 10000000

def TAS_MIN_BACKOFF_NANOSECONDS : Nat := 1000

def TAS_MAX_BACKOFF_NANOSECONDS : Nat := 64000

def TTAS_CYCLES_TO_SPIN : Nat := 10

def TTAS_MIN_BACKOFF_NANOSECONDS : Nat := 1000

def TTAS_MAX_BACKOFF_NANOSECONDS : Nat := 64000

/-- `if (backoff_sleep < MAX) backoff_sleep *= 2` on an `unsigned`. -/
def nextBackoff (maxBackoff backoff : Nat) : Nat :=
  if backoff < maxBackoff then backoff * 2 % 2^32 else backoff

/-- Where a thread of `thread_func` stands, with its loop counter `i`. -/
inductive Pc where
  | loop (i : Nat)          -- the test `i < NUM_ITERATIONS` of the `for` loop
  | spin (i cycle : Nat)    -- `TTAS_acquire`: the load of `lock_taken` in the spin loop
  | test (i backoff : Nat)  -- `TTAS_acquire`: the load at the top of `while (1)`
  | tas (i backoff : Nat)   -- `atomic_flag_test_and_set` (in `TAS_acquire`, the `while` test)
  | critical (i : Nat)      -- `var++`: the load of `var`
  | incr (i v : Nat)        -- `var++`: the store of `v + 1`
  | release (i : Nat)       -- `atomic_flag_clear`
  | done
deriving DecidableEq, Repr

structure LockState (ι : Type*) where
  lockTaken : Bool
  var : Nat
  pc : ι → Pc

variable {ι : Type*} [DecidableEq ι]

def LockState.setPc (s : LockState ι) (t : ι) (p : Pc) : LockState ι :=
  { s with pc := Function.update s.pc t p }

@[simp] theorem LockState.setPc_lockTaken (s : LockState ι) (t : ι) (p : Pc) :
    (s.setPc t p).lockTaken = s.lockTaken := rfl

@[simp] theorem LockState.setPc_var (s : LockState ι) (t : ι) (p : Pc) :
    (s.setPc t p).var = s.var := rfl

/-- `var++` and the release, which `thread_func` runs the same way under both locks. -/
def sharedStep (s : LockState ι) (t : ι) : Pc → LockState ι
  | .critical i => s.setPc t (.incr i s.var)
  | .incr i v => { s with var := (v + 1) % 2^32, pc := Function.update s.pc t (.release i) }
  | .release i => { s with lockTaken := false, pc := Function.update s.pc t (.loop (i + 1)) }
  | _ => s

/-- One atomic step of thread `t` under `TAS_acquire`; `nanosleep` only delays it. -/
def tasStep (s : LockState ι) (t : ι) : LockState ι :=
  match s.pc t with
  | .loop i =>
    s.setPc t (if i < NUM_ITERATIONS then .tas i TAS_MIN_BACKOFF_NANOSECONDS else .done)
  | .tas i b =>
    if s.lockTaken then s.setPc t (.tas i (nextBackoff TAS_MAX_BACKOFF_NANOSECONDS b))
    else { s with lockTaken := true, pc := Function.update s.pc t (.critical i) }
  | p => sharedStep s t p

/-- One atomic step of thread `t` under `TTAS_acquire`: up to `TTAS_CYCLES_TO_SPIN` loads,
then loads with backoff until the flag reads clear, and a `test_and_set` that either takes
the lock or goes back to loading. -/
def ttasStep (s : LockState ι) (t : ι) : LockState ι :=
  match s.pc t with
  | .loop i => s.setPc t (if i < NUM_ITERATIONS then .spin i 0 else .done)
  | .spin i c =>
    s.setPc t (if s.lockTaken ∧ c < TTAS_CYCLES_TO_SPIN then .spin i (c + 1)
      else .test i TTAS_MIN_BACKOFF_NANOSECONDS)
  | .test i b =>
    s.setPc t (if s.lockTaken then .test i (nextBackoff TTAS_MAX_BACKOFF_NANOSECONDS b)
      else .tas i b)
  | .tas i b =>
    if s.lockTaken then s.setPc t (.test i b)
    else { s with lockTaken := true, pc := Function.update s.pc t (.critical i) }
  | p => sharedStep s t p

inductive Step (step : LockState ι → ι → LockState ι) : LockState ι → LockState ι → Prop
  | run (s : LockState ι) (t : ι) : Step step s (step s t)

/-- `TAS_init`/`TTAS_init` clear the flag, `var` is `0U`, no thread has started. -/
def LockState.init : LockState ι := ⟨false, 0, fun _ => .loop 0⟩

def Pc.holds : Pc → Prop
  | .critical _ | .incr _ _ | .release _ => True
  | _ => False

instance : DecidablePred Pc.holds
  | .critical _ | .incr _ _ | .release _ => isTrue trivial
  | .loop _ | .spin _ _ | .test _ _ | .tas _ _ | .done => isFalse id

def Pc.count : Pc → Nat
  | .loop i | .spin i _ | .test i _ | .tas i _ | .critical i | .incr i _ => i
  | .release i => i + 1
  | .done => NUM_ITERATIONS

def Pc.Bounded : Pc → Prop
  | .loop i => i ≤ NUM_ITERATIONS
  | .spin i _ | .test i _ | .tas i _ | .critical i | .incr i _ | .release i => i < NUM_ITERATIONS
  | .done => True

theorem sum_update_count [Fintype ι] {pc : ι → Pc} {t : ι} {q : Pc} (hq : pc t = q) (p : Pc) :
    (∑ j, (Function.update pc t p j).count) + q.count = (∑ j, (pc j).count) + p.count := by
  subst hq
  exact sum_update_add Pc.count pc (Finset.mem_univ t) p

variable [Fintype ι]

/-- The invariant of every run: one holder at most, the flag is set exactly while someone
holds the lock, a thread about to store has loaded the current `var`, and `var` is the
number of stored increments modulo `2^32`. -/
structure Inv (s : LockState ι) : Prop where
  excl : ∀ t u, (s.pc t).holds → (s.pc u).holds → t = u
  taken : s.lockTaken = true ↔ ∃ t, (s.pc t).holds
  loaded : ∀ t i v, s.pc t = .incr i v → v = s.var
  bounded : ∀ t, (s.pc t).Bounded
  count : s.var = (∑ t, (s.pc t).count) % 2^32

variable {s : LockState ι}

omit [DecidableEq ι] in
theorem Inv.init : Inv (LockState.init : LockState ι) :=
  ⟨fun _ _ h => h.elim, ⟨Bool.noConfusion, fun ⟨_, h⟩ => h.elim⟩, fun _ _ _ h => Pc.noConfusion h,
    fun _ => Nat.zero_le _, by simp [LockState.init, Pc.count]⟩

theorem Inv.update (h : Inv s) {t : ι} {p : Pc} {taken : Bool} {var : Nat}
    (hexcl : p.holds → ∀ u, (s.pc u).holds → u = t)
    (htaken : taken = true ↔ p.holds ∨ ∃ u, u ≠ t ∧ (s.pc u).holds)
    (hloaded : ∀ i v, p = .incr i v → v = var)
    (hvar : var = s.var ∨ ∀ u, u ≠ t → ¬ (s.pc u).holds)
    (hb : p.Bounded) (hcount : var = (∑ u, (Function.update s.pc t p u).count) % 2^32) :
    Inv ⟨taken, var, Function.update s.pc t p⟩ := by
  have hpc : ∀ u, Function.update s.pc t p u = if u = t then p else s.pc u :=
    fun u => Function.update_apply _ _ _ _
  refine ⟨fun u w hu hw => ?_, htaken.trans ⟨?_, fun ⟨u, hu⟩ => ?_⟩, fun u i v hu => ?_,
    fun u => ?_, hcount⟩
  · dsimp only at hu hw
    rw [hpc] at hu hw
    split_ifs at hu hw with hut hwt hwt
    · exact hut.trans hwt.symm
    · exact hut.trans (hexcl hu w hw).symm
    · exact (hexcl hw u hu).trans hwt.symm
    · exact h.excl u w hu hw
  · rintro (hp | ⟨u, hut, hu⟩)
    · exact ⟨t, by dsimp only; rwa [Function.update_same]⟩
    · exact ⟨u, by dsimp only; rwa [Function.update_noteq hut]⟩
  · dsimp only at hu
    rw [hpc] at hu
    split_ifs at hu with hut
    exacts [.inl hu, .inr ⟨u, hut, hu⟩]
  · dsimp only at hu ⊢
    rw [hpc] at hu
    split_ifs at hu with hut
    · exact hloaded i v hu
    · rcases hvar with hv | hfree
      · exact (h.loaded u i v hu).trans hv.symm
      · exact absurd (hu ▸ trivial) (hfree u hut)
  · dsimp only
    rw [hpc]
    split_ifs
    exacts [hb, h.bounded u]

theorem Inv.setPc (h : Inv s) {t : ι} {p : Pc} (hold : ¬ (s.pc t).holds) (hnew : ¬ p.holds)
    (hb : p.Bounded) (hc : p.count = (s.pc t).count) : Inv (s.setPc t p) := by
  have hsum := sum_update_count (rfl : s.pc t = _) p
  refine h.update (fun hp => absurd hp hnew) (h.taken.trans ⟨fun ⟨u, hu⟩ =>
    .inr ⟨u, fun hut => hold (hut ▸ hu), hu⟩, ?_⟩) (fun i v hp => absurd (hp ▸ trivial) hnew)
    (.inl rfl) hb (by have := h.count; omega)
  rintro (hp | ⟨u, -, hu⟩)
  exacts [absurd hp hnew, ⟨u, hu⟩]

theorem Inv.acquire (h : Inv s) {t : ι} {i b : Nat} (hpc : s.pc t = .tas i b)
    (hfree : s.lockTaken = false) :
    Inv { s with lockTaken := true, pc := Function.update s.pc t (.critical i) } := by
  have hnone : ∀ u, ¬ (s.pc u).holds := fun u hu => by
    rw [h.taken.mpr ⟨u, hu⟩] at hfree
    cases hfree
  have hsum : _ + i = _ + i := sum_update_count hpc (.critical i)
  have hb := h.bounded t
  rw [hpc] at hb
  exact h.update (fun _ u hu => absurd hu (hnone u)) ⟨fun _ => .inl trivial, fun _ => rfl⟩
    (fun _ _ hp => Pc.noConfusion hp) (.inl rfl) hb (by have := h.count; omega)

theorem Inv.load (h : Inv s) {t : ι} {i : Nat} (hpc : s.pc t = .critical i) :
    Inv (s.setPc t (.incr i s.var)) := by
  have ht : (s.pc t).holds := by rw [hpc]; trivial
  have hsum : _ + i = _ + i := sum_update_count hpc (.incr i s.var)
  have hb := h.bounded t
  rw [hpc] at hb
  exact h.update (fun _ u hu => h.excl u t hu ht) ⟨fun _ => .inl trivial, fun _ => h.taken.mpr ⟨t, ht⟩⟩
    (fun _ _ hp => by cases hp; rfl) (.inl rfl) hb (by have := h.count; omega)

theorem Inv.store (h : Inv s) {t : ι} {i v : Nat} (hpc : s.pc t = .incr i v) :
    Inv { s with var := (v + 1) % 2^32, pc := Function.update s.pc t (.release i) } := by
  have ht : (s.pc t).holds := by rw [hpc]; trivial
  have hv := h.loaded t i v hpc
  have hsum : _ + i = _ + (i + 1) := sum_update_count hpc (.release i)
  have hb := h.bounded t
  rw [hpc] at hb
  have hc := h.count
  refine h.update (fun _ u hu => h.excl u t hu ht)
    ⟨fun _ => .inl trivial, fun _ => h.taken.mpr ⟨t, ht⟩⟩ (fun _ _ hp => Pc.noConfusion hp)
    (.inr fun u hut hu => hut (h.excl u t hu ht)) hb (by omega)

theorem Inv.release (h : Inv s) {t : ι} {i : Nat} (hpc : s.pc t = .release i) :
    Inv { s with lockTaken := false, pc := Function.update s.pc t (.loop (i + 1)) } := by
  have ht : (s.pc t).holds := by rw [hpc]; trivial
  have hsum : _ + (i + 1) = _ + (i + 1) := sum_update_count hpc (.loop (i + 1))
  have hb := h.bounded t
  rw [hpc] at hb
  refine h.update (fun hp => hp.elim) ⟨Bool.noConfusion, ?_⟩ (fun _ _ hp => Pc.noConfusion hp)
    (.inl rfl) (show i + 1 ≤ NUM_ITERATIONS from hb) (by have := h.count; omega)
  rintro (hp | ⟨u, hut, hu⟩)
  exacts [hp.elim, absurd (h.excl u t hu ht) hut]

theorem Inv.sharedStep (h : Inv s) {t : ι} {p : Pc} (hpc : s.pc t = p) :
    Inv (sharedStep s t p) := by
  cases p with
  | critical i => exact h.load hpc
  | incr i v => exact h.store hpc
  | release i => exact h.release hpc
  | loop _ | spin _ _ | test _ _ | tas _ _ | done => exact h

theorem Inv.loopTest (h : Inv s) {t : ι} {i : Nat} (hpc : s.pc t = .loop i) {p : Pc}
    (hp : ¬ p.holds) (hb : i < NUM_ITERATIONS → p.Bounded) (hc : p.count = i) :
    Inv (s.setPc t (if i < NUM_ITERATIONS then p else .done)) := by
  have hi : i ≤ NUM_ITERATIONS := by have := h.bounded t; rwa [hpc] at this
  split_ifs with hlt
  · exact h.setPc (by rw [hpc]; exact id) hp (hb hlt) (by rw [hpc]; exact hc)
  · exact h.setPc (by rw [hpc]; exact id) id trivial (by rw [hpc]; show NUM_ITERATIONS = i; omega)

theorem Inv.tas (h : Inv s) (t : ι) : Inv (tasStep s t) := by
  have hb := h.bounded t
  unfold tasStep
  cases hpc : s.pc t
  case loop i =>
    exact h.loopTest hpc id id rfl
  case tas i b =>
    rw [hpc] at hb
    cases hfree : s.lockTaken
    · exact h.acquire hpc hfree
    · exact h.setPc (by rw [hpc]; exact id) id hb (by rw [hpc]; rfl)
  all_goals exact h.sharedStep hpc

theorem Inv.ttas (h : Inv s) (t : ι) : Inv (ttasStep s t) := by
  have hb := h.bounded t
  unfold ttasStep
  cases hpc : s.pc t
  case loop i =>
    exact h.loopTest hpc id id rfl
  case spin i c =>
    rw [hpc] at hb
    exact h.setPc (by rw [hpc]; exact id) (by split_ifs <;> exact id) (by split_ifs <;> exact hb)
      (by rw [hpc]; split_ifs <;> rfl)
  case test i b =>
    rw [hpc] at hb
    exact h.setPc (by rw [hpc]; exact id) (by split_ifs <;> exact id) (by split_ifs <;> exact hb)
      (by rw [hpc]; split_ifs <;> rfl)
  case tas i b =>
    rw [hpc] at hb
    cases hfree : s.lockTaken
    · exact h.acquire hpc hfree
    · exact h.setPc (by rw [hpc]; exact id) id hb (by rw [hpc]; rfl)
  all_goals exact h.sharedStep hpc

omit [DecidableEq ι] in
theorem Inv.reachable {step : LockState ι → ι → LockState ι}
    (hstep : ∀ s t, Inv s → Inv (step s t))
    (h : Reachable (· = LockState.init) (Step step) s) : Inv s :=
  Reachable.invariant (fun _ hs => hs ▸ Inv.init) (fun _ _ hs hst => by cases hst; exact hstep _ _ hs) h

/-- Under `TAS_acquire` and under `TTAS_acquire`, whatever the number of threads and the
interleaving: at most one thread is between acquire and release, `lock_taken` is set exactly
while one is, `var` is the number of increments stored so far modulo `2^32`, so none is lost,
and once every thread has left its loop `var` is `NUM_THREADS * NUM_ITERATIONS` modulo
`2^32`. -/
theorem spinlocks_exclusive_no_lost_update {s : LockState ι}
    (h : Reachable (· = LockState.init) (Step tasStep) s ∨
      Reachable (· = LockState.init) (Step ttasStep) s) :
    (∀ t u, (s.pc t).holds → (s.pc u).holds → t = u) ∧
    (s.lockTaken = true ↔ ∃ t, (s.pc t).holds) ∧
    s.var = (∑ t, (s.pc t).count) % 2^32 ∧
    ((∀ t, s.pc t = .done) → s.var = Fintype.card ι * NUM_ITERATIONS % 2^32) := by
  have hinv : Inv s := h.elim (Inv.reachable fun _ t h => h.tas t) (Inv.reachable fun _ t h => h.ttas t)
  refine ⟨hinv.excl, hinv.taken, hinv.count, fun hdone => ?_⟩
  rw [hinv.count, Finset.sum_congr rfl fun t _ => congrArg Pc.count (hdone t)]
  simp [Pc.count]

/-- Eight threads under `TAS_acquire`: thread 0 takes the lock, thread 1 finds it taken and
doubles its backoff, and thread 0 stores its increment and releases. -/
theorem spinlocks_exclusive_no_lost_update_eight_threads :
    ∃ s : LockState (Fin 8), Reachable (· = LockState.init) (Step tasStep) s ∧
      s.pc 0 = .loop 1 ∧ s.pc 1 = .tas 0 2000 ∧ s.var = 1 ∧
      ((∀ t u, (s.pc t).holds → (s.pc u).holds → t = u) ∧
        (s.lockTaken = true ↔ ∃ t, (s.pc t).holds) ∧
        s.var = (∑ t, (s.pc t).count) % 2^32 ∧
        ((∀ t, s.pc t = .done) → s.var = Fintype.card (Fin 8) * NUM_ITERATIONS % 2^32)) := by
  have h0 : Reachable (· = LockState.init) (Step tasStep) (LockState.init : LockState (Fin 8)) :=
    .init rfl
  have h := ((((((h0.step (.run _ 0)).step (.run _ 0)).step (.run _ 1)).step (.run _ 1)).step
    (.run _ 0)).step (.run _ 0)).step (.run _ 0)
  exact ⟨_, h, rfl, rfl, rfl, spinlocks_exclusive_no_lost_update (.inl h)⟩

end NetworkingHowto.Sync.Spinlock
