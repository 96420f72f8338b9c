import NetworkingHowto.Sync.Futex
import Mathlib.Data.Fintype.Card

/-! The benchmark around the futex mutex in `futex.c`, `erm_futex.c` and `unnamed/part_006`: the
test of the word never prints and no increment of `var` is lost. -/
namespace NetworkingHowto.Sync.FutexCounter

open Futex

/-- What tells the three programs apart: the encoding of their `lock`/`unlock`, the text their
test prints (`part_006` has no test), and the benchmark's sizes. -/
structure Bench where
  enc : MutexEncoding
  invalidMsg : Option String
  NUM_THREADS : Nat
  NUM_ITERATIONS : Nat
deriving DecidableEq, Repr

/-- `futex.c`. -/
def futexBench : Bench := ⟨futexEncoding, some "Futex implementation is invalid\n", 8, 1000000⟩

/-- `erm_futex.c`. -/
def ermFutexBench : Bench := ⟨ermFutexEncoding, some "atomics are not atomic :)\n", 4, 10000000⟩

/-- `unnamed/part_006`. -/
def part006Bench : Bench := ⟨part006Encoding, none, 4, 10000000⟩

/-- Where a thread stands between the return of `lock` and the call of `unlock`. -/
inductive CsPc where
  | lockd           -- the test's first load: `*args->mutex != M_LOCKD`
  | ulockd          -- its second: `*args->mutex != M_ULOCKD`
  | lockdWq         -- its third, `*args->mutex != M_LOCKD_WQ`, and the `printf`
  | load            -- `var++`: the load of `var`
  | store (v : Nat) -- `var++`: the store of `v + 1`
  | unlock          -- the call of `unlock`
deriving DecidableEq, Repr

/-- The mutex with every thread's place in `lock`/`unlock`, each thread's place between them
and its loop counter `i`, `var`, and what the test printed. -/
structure BenchState (ι : Type*) where
  lock : MutexState ι
  cs : ι → CsPc
  i : ι → Nat
  var : Nat
  out : List String

variable {ι : Type*} [DecidableEq ι]

def BenchState.setCs (s : BenchState ι) (t : ι) (c : CsPc) : BenchState ι :=
  { s with cs := Function.update s.cs t c }

def BenchState.lockStep (s : BenchState ι) (enc : MutexEncoding) (t : ι) : BenchState ι :=
  { s with lock := threadStep enc s.lock t }

/-- One step of thread `t` of `thread_func` after `lock` returned and before `unlock`. `++i` is
taken with the store of `var++`: nothing reads `i` before the loop's test. -/
def criticalStep (b : Bench) (s : BenchState ι) (t : ι) : CsPc → BenchState ι
  | .lockd => s.setCs t (if b.invalidMsg.isSome ∧ s.lock.mutex ≠ b.enc.LOCKD then .ulockd else .load)
  | .ulockd => s.setCs t (if s.lock.mutex ≠ b.enc.ULOCKD then .lockdWq else .load)
  | .lockdWq =>
    { s with cs := Function.update s.cs t .load,
             out := if s.lock.mutex ≠ b.enc.LOCKD_WQ then s.out ++ b.invalidMsg.toList else s.out }
  | .load => s.setCs t (.store s.var)
  | .store v =>
    { s with var := (v + 1) % 2^32, i := Function.update s.i t (s.i t + 1),
             cs := Function.update s.cs t .unlock }
  | .unlock => { s.lockStep b.enc t with cs := Function.update s.cs t .lockd }

/-- One atomic step of thread `t` of `thread_func`: the loop's test `i < NUM_ITERATIONS` before
`lock` (a thread past its last round has returned and does not move), the steps between `lock`
and `unlock`, and the steps of those two. -/
def threadFunc (b : Bench) (s : BenchState ι) (t : ι) : BenchState ι :=
  match s.lock.pc t with
  | .idle => if s.i t < b.NUM_ITERATIONS then s.lockStep b.enc t else s
  | .critical => criticalStep b s t (s.cs t)
  | _ => s.lockStep b.enc t

/-- Every interleaving: any thread takes its next step, and the kernel moves sleepers on the
futex as in the mutex's model. -/
inductive Step (b : Bench) : BenchState ι → BenchState ι → Prop
  | run (s : BenchState ι) (t : ι) : Step b s (threadFunc b s t)
  | wakeOne (s : BenchState ι) (i j : ι) (hi : s.lock.pc i = .wake) (hj : s.lock.pc j = .sleeping) :
      Step b s { s with lock := (s.lock.setPc i .idle).setPc j .xchg }
  | spurious (s : BenchState ι) (j : ι) (hj : s.lock.pc j = .sleeping) :
      Step b s { s with lock := s.lock.setPc j .xchg }

/-- `main`: the word is `M_ULOCKD`, `var` is `0U`, and every thread starts its loop. -/
def BenchState.init (enc : MutexEncoding) : BenchState ι :=
  ⟨⟨enc.ULOCKD, fun _ => .idle⟩, fun _ => .lockd, fun _ => 0, 0, []⟩

variable {b : Bench} {enc : MutexEncoding} {s : BenchState ι}

/-! ### The mutex runs its own model -/

theorem threadFunc_lock (t : ι) :
    (threadFunc b s t).lock = threadStep b.enc s.lock t ∨ (threadFunc b s t).lock = s.lock := by
  unfold threadFunc
  cases s.lock.pc t
  case idle => split_ifs <;> simp [BenchState.lockStep]
  case critical => cases s.cs t <;> simp [criticalStep, BenchState.setCs, BenchState.lockStep]
  all_goals exact .inl rfl

theorem Step.lock {s' : BenchState ι} (h : Step b s s') :
    Futex.Step b.enc s.lock s'.lock ∨ s'.lock = s.lock := by
  cases h with
  | run t =>
    rcases threadFunc_lock (b := b) (s := s) t with h | h
    exacts [.inl (h ▸ .run _ t), .inr h]
  | wakeOne i j hi hj => exact .inl (.wakeOne _ i j hi hj)
  | spurious j hj => exact .inl (.spurious _ j hj)

theorem reachable_lock (h : Reachable (· = BenchState.init b.enc) (Step b) s) :
    Reachable (Init b.enc) (Futex.Step b.enc) s.lock := by
  induction h with
  | init hs => subst hs; exact .init ⟨rfl, fun _ => rfl⟩
  | step _ hst ih =>
    rcases hst.lock with h | h
    exacts [.step ih h, h ▸ ih]

/-! ### Facts of the mutex's steps -/

def entered : Pc → Prop
  | .cas | .xchg | .wait | .sleeping | .critical => True
  | _ => False

theorem threadStep_pc_ne {l : MutexState ι} {t u : ι} (hu : u ≠ t) :
    (threadStep enc l t).pc u = l.pc u := by
  unfold threadStep
  split <;> (try split) <;> simp [Function.update_noteq hu, hu]

theorem entered_threadStep {l : MutexState ι} {t : ι} (h : entered ((threadStep enc l t).pc t)) :
    entered (l.pc t) ∨ l.pc t = .idle := by
  cases hpc : l.pc t
  case sub =>
    simp only [threadStep, hpc, Function.update_same] at h
    split_ifs at h <;> exact h.elim
  case store => simp only [threadStep, hpc, Function.update_same] at h; exact h.elim
  case wake => simp only [threadStep, hpc, MutexState.setPc_pc, if_pos rfl] at h; exact h.elim
  all_goals simp [entered]

theorem threadStep_mutex_wq (hv : enc.Valid) {l : MutexState ι} (hl : Futex.Inv enc l) {u : ι}
    (hu : l.pc u = .critical) (hm : l.mutex = enc.LOCKD_WQ) (t : ι) :
    (threadStep enc l t).mutex = enc.LOCKD_WQ := by
  have hown : ¬ (l.pc t = .sub ∨ l.pc t = .store) := by
    rintro (hpc | hpc) <;>
    · have htu := hl.excl t u (by rw [hpc]; trivial) (by rw [hu]; trivial)
      rw [htu, hu] at hpc
      cases hpc
  cases hpc : l.pc t <;> simp only [threadStep, hpc, MutexState.setPc_mutex] at hown ⊢
  case cas => rw [hm, if_neg hv.wq_ne]; exact hm
  all_goals first | exact hm | rfl | simp at hown

/-! ### The invariant -/

variable [Fintype ι]

/-- The invariant of every run, beside the mutex's own: a thread outside `lock`'s return and
`unlock` is at the test's start; between the test's first load and its last the word is
`M_LOCKD_WQ`; a thread about to store has loaded the current `var`; each loop counter is within
its bound and below it during a round before the store; `var` is the number of increments
stored modulo `2^32`; and the test printed nothing. -/
structure BenchInv (b : Bench) (s : BenchState ι) : Prop where
  lock : Futex.Inv b.enc s.lock
  outside : ∀ t, s.lock.pc t ≠ .critical → s.cs t = .lockd
  wq : ∀ t, s.cs t = .ulockd ∨ s.cs t = .lockdWq → s.lock.mutex = b.enc.LOCKD_WQ
  loaded : ∀ t v, s.cs t = .store v → v = s.var
  bounded : ∀ t, s.i t ≤ b.NUM_ITERATIONS
  round : ∀ t, entered (s.lock.pc t) → s.cs t ≠ .unlock → s.i t < b.NUM_ITERATIONS
  count : s.var = (∑ t, s.i t) % 2^32
  silent : s.out = []

omit [DecidableEq ι] in
theorem BenchInv.init : BenchInv b (BenchState.init b.enc : BenchState ι) where
  lock := Futex.Inv.init _ ⟨rfl, fun _ => rfl⟩
  outside _ _ := rfl
  wq _ h := by rcases h with h | h <;> cases h
  loaded _ _ h := by cases h
  bounded _ := Nat.zero_le _
  round _ he _ := he.elim
  count := by simp [BenchState.init]
  silent := rfl

omit [DecidableEq ι] in
theorem BenchInv.critical_of_cs (h : BenchInv b s) {t : ι} (hcs : s.cs t ≠ .lockd) :
    s.lock.pc t = .critical :=
  not_not.mp fun hpc => hcs (h.outside t hpc)

omit [DecidableEq ι] in
theorem BenchInv.lockMove (h : BenchInv b s) {l : MutexState ι} {c : ι → CsPc}
    (hl : Futex.Inv b.enc l)
    (hmutex : ∀ u, s.lock.pc u = .critical → s.lock.mutex = b.enc.LOCKD_WQ →
      l.mutex = b.enc.LOCKD_WQ)
    (hmove : ∀ u, l.pc u ≠ s.lock.pc u ∨ c u ≠ s.cs u →
      c u = .lockd ∧ (entered (l.pc u) → s.i u < b.NUM_ITERATIONS)) :
    BenchInv b { s with lock := l, cs := c } := by
  have hkeep : ∀ u, (l.pc u = s.lock.pc u ∧ c u = s.cs u) ∨
      (c u = .lockd ∧ (entered (l.pc u) → s.i u < b.NUM_ITERATIONS)) := fun u => by
    by_cases hu : l.pc u ≠ s.lock.pc u ∨ c u ≠ s.cs u
    · exact .inr (hmove u hu)
    · exact .inl (by tauto)
  refine ⟨hl, fun u hu => ?_, fun u hu => ?_, fun u v hu => ?_, h.bounded, fun u he hne => ?_,
    h.count, h.silent⟩
  · dsimp only at hu ⊢
    rcases hkeep u with ⟨hp, hc⟩ | ⟨hc, -⟩
    exacts [hc ▸ h.outside u (hp ▸ hu), hc]
  · dsimp only at hu ⊢
    rcases hkeep u with ⟨-, hc⟩ | ⟨hc, -⟩
    · rw [hc] at hu
      exact hmutex u (h.critical_of_cs (by rcases hu with hu | hu <;> rw [hu] <;> nofun)) (h.wq u hu)
    · rcases hu with hu | hu <;> rw [hc] at hu <;> cases hu
  · dsimp only at hu ⊢
    rcases hkeep u with ⟨-, hc⟩ | ⟨hc, -⟩
    · exact h.loaded u v (hc ▸ hu)
    · rw [hc] at hu; cases hu
  · dsimp only at he hne
    rcases hkeep u with ⟨hp, hc⟩ | ⟨-, hi⟩
    exacts [h.round u (hp ▸ he) (hc ▸ hne), hi he]

theorem BenchInv.lockStep (hv : b.enc.Valid) (h : BenchInv b s) {t : ι}
    (ht : s.lock.pc t ≠ .critical) (hidle : s.lock.pc t = .idle → s.i t < b.NUM_ITERATIONS) :
    BenchInv b (s.lockStep b.enc t) := by
  refine h.lockMove (c := s.cs) (h.lock.threadStep hv t)
    (fun u hu hm => threadStep_mutex_wq hv h.lock hu hm t) fun u hu => ?_
  have hut : u = t := by
    by_contra hut
    exact hu.elim (· (threadStep_pc_ne hut)) (· rfl)
  subst hut
  refine ⟨h.outside u ht, fun he => ?_⟩
  rcases entered_threadStep he with he | hidle'
  exacts [h.round u he (by rw [h.outside u ht]; nofun), hidle hidle']

theorem BenchInv.unlock (hv : b.enc.Valid) (h : BenchInv b s) {t : ι}
    (hpc : s.lock.pc t = .critical) :
    BenchInv b { s.lockStep b.enc t with cs := Function.update s.cs t .lockd } := by
  refine h.lockMove (h.lock.threadStep hv t)
    (fun u hu hm => threadStep_mutex_wq hv h.lock hu hm t) fun u hu => ?_
  have hut : u = t := by
    by_contra hut
    exact hu.elim (· (threadStep_pc_ne hut)) (· (Function.update_noteq hut _ _))
  subst hut
  refine ⟨Function.update_same _ _ _, fun he => ?_⟩
  simp only [BenchState.lockStep, threadStep, hpc, MutexState.setPc_pc, if_pos rfl] at he
  exact he.elim

theorem BenchInv.setPc (h : BenchInv b s) {t : ι} {p : Pc}
    (ht : ¬ (s.lock.pc t).owner) (hp : ¬ p.owner) (he : entered p → entered (s.lock.pc t)) :
    BenchInv b { s with lock := s.lock.setPc t p } := by
  have hcs : s.cs t = .lockd := h.outside t fun hc => ht (hc ▸ trivial)
  refine h.lockMove (c := s.cs) (h.lock.setPc_quiet ht hp) (fun _ _ hm => hm) fun u hu => ?_
  have hut : u = t := by
    by_contra hut
    exact hu.elim (· (by simp [hut])) (· rfl)
  subst hut
  refine ⟨hcs, fun hep => h.round u (he ?_) (by rw [hcs]; nofun)⟩
  simpa using hep

theorem BenchInv.setCs (h : BenchInv b s) {t : ι} {p : CsPc} (hpc : s.lock.pc t = .critical)
    (hcs : s.cs t ≠ .unlock) (hwq : p = .ulockd ∨ p = .lockdWq → s.lock.mutex = b.enc.LOCKD_WQ)
    (hload : ∀ v, p = .store v → v = s.var) : BenchInv b (s.setCs t p) := by
  have hround := h.round t (by rw [hpc]; trivial) hcs
  exact ⟨h.lock,
    (Function.forall_update_iff s.cs fun u q => s.lock.pc u ≠ .critical → q = .lockd).mpr
      ⟨fun hu => absurd hpc hu, fun u _ => h.outside u⟩,
    (Function.forall_update_iff s.cs fun _ q => q = .ulockd ∨ q = .lockdWq →
      s.lock.mutex = b.enc.LOCKD_WQ).mpr ⟨hwq, fun u _ => h.wq u⟩,
    (Function.forall_update_iff s.cs fun _ q => ∀ v, q = .store v → v = s.var).mpr
      ⟨hload, fun u _ => h.loaded u⟩, h.bounded,
    (Function.forall_update_iff s.cs fun u q => entered (s.lock.pc u) → q ≠ .unlock →
      s.i u < b.NUM_ITERATIONS).mpr ⟨fun _ _ => hround, fun u _ => h.round u⟩, h.count, h.silent⟩

theorem BenchInv.store (h : BenchInv b s) {t : ι} {v : Nat}
    (hpc : s.lock.pc t = .critical) (hcs : s.cs t = .store v) :
    BenchInv b { s with var := (v + 1) % 2^32, i := Function.update s.i t (s.i t + 1),
                        cs := Function.update s.cs t .unlock } := by
  have hround := h.round t (by rw [hpc]; trivial) (by rw [hcs]; nofun)
  have hsum : ∑ u, Function.update s.i t (s.i t + 1) u = (∑ u, s.i u) + 1 := by
    rw [Finset.sum_update_of_mem (Finset.mem_univ t),
      Finset.sum_eq_add_sum_diff_singleton (Finset.mem_univ t) s.i]
    omega
  refine ⟨h.lock,
    (Function.forall_update_iff s.cs fun u q => s.lock.pc u ≠ .critical → q = .lockd).mpr
      ⟨fun hu => absurd hpc hu, fun u _ => h.outside u⟩,
    (Function.forall_update_iff s.cs fun _ q => q = .ulockd ∨ q = .lockdWq →
      s.lock.mutex = b.enc.LOCKD_WQ).mpr ⟨nofun, fun u _ => h.wq u⟩,
    (Function.forall_update_iff s.cs fun _ q => ∀ w, q = .store w → w = (v + 1) % 2^32).mpr
      ⟨nofun, fun u hut w hu => ?_⟩,
    (Function.forall_update_iff s.i fun _ n => n ≤ b.NUM_ITERATIONS).mpr
      ⟨hround, fun u _ => h.bounded u⟩, fun u he hne => ?_, ?_, h.silent⟩
  · -- another thread about to store would be between `lock` and `unlock` too
    have hu' := h.critical_of_cs (t := u) (by rw [hu]; nofun)
    exact absurd (h.lock.excl u t (by rw [hu']; trivial) (by rw [hpc]; trivial)) hut
  · dsimp only at he hne ⊢
    rcases eq_or_ne u t with rfl | hut
    · exact absurd (Function.update_same _ _ _) hne
    · rw [Function.update_noteq hut] at hne ⊢; exact h.round u he hne
  · show (v + 1) % 2^32 = (∑ u, Function.update s.i t (s.i t + 1) u) % 2^32
    rw [hsum, h.loaded t v hcs, h.count, Nat.mod_add_mod]

theorem BenchInv.criticalStep (hv : b.enc.Valid) (h : BenchInv b s) {t : ι}
    (hpc : s.lock.pc t = .critical) : BenchInv b (criticalStep b s t (s.cs t)) := by
  cases hcs : s.cs t with
  | lockd =>
    refine h.setCs hpc (by rw [hcs]; nofun) (fun hp => ?_) fun v hp => ?_
    · split_ifs at hp with hm
      · exact (h.lock.held t (.inl hpc)).resolve_left hm.2
      · rcases hp with hp | hp <;> cases hp
    · split_ifs at hp
  | ulockd =>
    refine h.setCs hpc (by rw [hcs]; nofun) (fun _ => h.wq t (.inl hcs))
      fun v hp => ?_
    split_ifs at hp
  | lockdWq =>
    have hm := h.wq t (.inr hcs)
    simp only [FutexCounter.criticalStep, hm, ne_eq, not_true_eq_false, if_false]
    exact h.setCs hpc (by rw [hcs]; nofun) (fun hp => by rcases hp with hp | hp <;> cases hp)
      nofun
  | load =>
    exact h.setCs hpc (by rw [hcs]; nofun)
      (fun hp => by rcases hp with hp | hp <;> cases hp) fun _ hp => by cases hp; rfl
  | store v => exact h.store hpc hcs
  | unlock => exact h.unlock hv hpc

theorem BenchInv.threadFunc (hv : b.enc.Valid) (h : BenchInv b s) (t : ι) :
    BenchInv b (threadFunc b s t) := by
  unfold FutexCounter.threadFunc
  cases hpc : s.lock.pc t
  case idle =>
    split_ifs with hlt
    exacts [h.lockStep hv (by rw [hpc]; nofun) fun _ => hlt, h]
  case critical => exact h.criticalStep hv hpc
  all_goals exact h.lockStep hv (by rw [hpc]; nofun) (by rw [hpc]; nofun)

theorem BenchInv.step (hv : b.enc.Valid) (h : BenchInv b s) {s' : BenchState ι}
    (hs : Step b s s') : BenchInv b s' := by
  cases hs with
  | run t => exact h.threadFunc hv t
  | wakeOne i j hi hj =>
    have hji : j ≠ i := fun hji => by rw [hji, hi] at hj; cases hj
    have h' := h.setPc (p := .idle) (by rw [hi]; exact id) id (fun he => he.elim)
    exact h'.setPc (by simp [hji, hj, Pc.owner]) id fun _ => by simp [hji, hj, entered]
  | spurious j hj => exact h.setPc (by rw [hj]; exact id) id fun _ => by rw [hj]; trivial

theorem BenchInv.reachable (hv : b.enc.Valid)
    (h : Reachable (· = BenchState.init b.enc) (Step b) s) : BenchInv b s :=
  h.invariant (fun _ hs => hs ▸ BenchInv.init) fun _ _ h hst => h.step hv hst

/-- The futex benchmark of `futex.c`, `erm_futex.c` and `unnamed/part_006`, for a valid
encoding, any number of threads and every interleaving: the mutex runs as its own model, the
test of the word never prints, `var` is the number of increments stored so far modulo `2^32`,
so none is lost, and once every thread has left its loop `var` is the number of threads times
`NUM_ITERATIONS` modulo `2^32`. -/
theorem futex_bench_no_lost_update (hv : b.enc.Valid)
    (h : Reachable (· = BenchState.init b.enc) (Step b) s) :
    Reachable (Init b.enc) (Futex.Step b.enc) s.lock ∧ s.out = [] ∧
    s.var = (∑ t, s.i t) % 2^32 ∧
    ((∀ t, s.lock.pc t = .idle ∧ s.i t = b.NUM_ITERATIONS) →
      s.var = Fintype.card ι * b.NUM_ITERATIONS % 2^32) := by
  have hinv := BenchInv.reachable hv h
  refine ⟨reachable_lock h, hinv.silent, hinv.count, fun hdone => ?_⟩
  rw [hinv.count, Finset.sum_congr rfl fun t _ => (hdone t).2]
  simp

/-- `futex.c` with two of its threads: thread 0 takes the mutex, thread 1 finds it taken and
goes to sleep; thread 0 passes the test on the word its waiter set, stores its increment,
unlocks and wakes thread 1, which takes the mutex and passes the test. -/
theorem futex_bench_no_lost_update_futex_c :
    ∃ s : BenchState (Fin futexBench.NUM_THREADS), futexBench.enc.Valid ∧
      Reachable (· = BenchState.init futexBench.enc) (Step futexBench) s ∧
      s.cs ⟨1, by decide⟩ = .load ∧ s.lock.mutex = futexBench.enc.LOCKD_WQ ∧ s.var = 1 ∧
      (Reachable (Init futexBench.enc) (Futex.Step futexBench.enc) s.lock ∧ s.out = [] ∧
        s.var = (∑ t, s.i t) % 2^32 ∧
        ((∀ t, s.lock.pc t = .idle ∧ s.i t = futexBench.NUM_ITERATIONS) →
          s.var = Fintype.card (Fin futexBench.NUM_THREADS) * futexBench.NUM_ITERATIONS % 2^32)) := by
  have h0 : Reachable (· = BenchState.init futexBench.enc) (Step futexBench)
      (BenchState.init futexBench.enc : BenchState (Fin futexBench.NUM_THREADS)) := .init rfl
  -- thread 0 locks; thread 1 exchanges the word to `M_LOCKD_WQ` and sleeps
  have h1 := (((((h0.step (.run _ ⟨0, by decide⟩)).step (.run _ ⟨0, by decide⟩)).step
    (.run _ ⟨1, by decide⟩)).step (.run _ ⟨1, by decide⟩)).step (.run _ ⟨1, by decide⟩)).step
    (.run _ ⟨1, by decide⟩)
  -- thread 0: the test's three loads, `var++`, and `unlock` up to its `FUTEX_WAKE`
  have h2 := (((((((h1.step (.run _ ⟨0, by decide⟩)).step (.run _ ⟨0, by decide⟩)).step
    (.run _ ⟨0, by decide⟩)).step (.run _ ⟨0, by decide⟩)).step (.run _ ⟨0, by decide⟩)).step
    (.run _ ⟨0, by decide⟩)).step (.run _ ⟨0, by decide⟩)).step (.run _ ⟨0, by decide⟩)
  -- the wake-up, then thread 1 takes the mutex and runs the test
  have h3 := ((((h2.step (.wakeOne _ ⟨0, of_decide_eq_true rfl⟩ ⟨1, of_decide_eq_true rfl⟩
    (by decide) (by decide))).step (.run _ ⟨1, by decide⟩)).step (.run _ ⟨1, by decide⟩)).step
    (.run _ ⟨1, by decide⟩)).step (.run _ ⟨1, by decide⟩)
  exact ⟨_, futexEncoding_valid, h3, rfl, rfl, rfl,
    futex_bench_no_lost_update futexEncoding_valid h3⟩

end NetworkingHowto.Sync.FutexCounter
