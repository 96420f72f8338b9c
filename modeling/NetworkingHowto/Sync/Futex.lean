import NetworkingHowto.Reachable
import Mathlib.Logic.Function.Basic
import Mathlib.Tactic.Tauto

/-! The futex mutex of `futex.c`, `unnamed/part_006` and `erm_futex.c` over every interleaving, and
its mutual exclusion. -/
namespace NetworkingHowto.Sync.Futex

structure MutexEncoding where
  ULOCKD : Int
  LOCKD : Int
  LOCKD_WQ : Int
  unlockSub : Int
deriving DecidableEq, Repr

/-- `futex.c`: `M_ULOCKD = 0`, `M_LOCKD = 1`, `M_LOCKD_WQ = 2`, `fetch_sub(mutex, 1)`. -/
def futexEncoding : MutexEncoding := ⟨0, 1, 2, 1⟩

/-- `unnamed/part_006`: the same values, `__atomic_fetch_sub(mutex, (int)M_LOCKD)`. -/
def part006Encoding : MutexEncoding := ⟨0, 1, 2, 1⟩

/-- `erm_futex.c`: `0x800`/`0x1000`/`0x2000`, `__atomic_fetch_sub(mutex, (int)M_ULOCKD)`. -/
def ermFutexEncoding : MutexEncoding := ⟨0x800, 0x1000, 0x2000, 0x800⟩

/-- What the protocol needs of an encoding: three distinct values, `unlock` from
`M_LOCKD` lands on `M_ULOCKD`, and `unlock` from `M_LOCKD_WQ` does not. -/
structure MutexEncoding.Valid (enc : MutexEncoding) : Prop where
  lockd_ne : enc.LOCKD ≠ enc.ULOCKD
  wq_ne : enc.LOCKD_WQ ≠ enc.ULOCKD
  wq_ne_lockd : enc.LOCKD_WQ ≠ enc.LOCKD
  release : enc.LOCKD - enc.unlockSub = enc.ULOCKD
  transient : enc.LOCKD_WQ - enc.unlockSub ≠ enc.ULOCKD

/-- Where a thread of `thread_func` stands in its `lock`; critical section; `unlock` loop. -/
inductive Pc where
  | idle      -- before `lock`
  | cas       -- compare-exchange (1) of `M_ULOCKD` to `M_LOCKD`
  | xchg      -- `atomic_exchange(mutex, M_LOCKD_WQ)`, (2) or the one in the wait loop
  | wait      -- `futex(mutex, FUTEX_WAIT, M_LOCKD_WQ)`
  | sleeping  -- blocked in the kernel on the futex
  | critical  -- `lock` returned, `unlock` not yet called
  | sub       -- `fetch_sub` of `unlock`
  | store     -- store of `M_ULOCKD` in `unlock`
  | wake      -- `futex(mutex, FUTEX_WAKE, 1)`
deriving DecidableEq, Repr

structure MutexState (ι : Type*) where
  mutex : Int
  pc : ι → Pc

variable {ι : Type*} [DecidableEq ι]

def MutexState.setPc (s : MutexState ι) (i : ι) (p : Pc) : MutexState ι :=
  { s with pc := Function.update s.pc i p }

@[simp] theorem MutexState.setPc_mutex (s : MutexState ι) (i : ι) (p : Pc) :
    (s.setPc i p).mutex = s.mutex := rfl

@[simp] theorem MutexState.setPc_pc (s : MutexState ι) (i j : ι) (p : Pc) :
    (s.setPc i p).pc j = if j = i then p else s.pc j := Function.update_apply _ _ _ _

/-- One atomic step of thread `i` of `lock`/`unlock`, as the code runs it. A sleeping
thread does not move by itself here; `FUTEX_WAKE` below may wake nobody, which only
adds runs. -/
def threadStep (enc : MutexEncoding) (s : MutexState ι) (i : ι) : MutexState ι :=
  match s.pc i with
  | .idle => s.setPc i .cas
  | .cas =>
    if s.mutex = enc.ULOCKD then ⟨enc.LOCKD, Function.update s.pc i .critical⟩
    else s.setPc i (if s.mutex ≠ enc.LOCKD_WQ then .xchg else .wait)
  | .xchg => ⟨enc.LOCKD_WQ, Function.update s.pc i (if s.mutex = enc.ULOCKD then .critical else .wait)⟩
  | .wait => s.setPc i (if s.mutex ≠ enc.LOCKD_WQ then .xchg else .sleeping)
  | .sleeping => s
  | .critical => s.setPc i .sub
  | .sub => ⟨s.mutex - enc.unlockSub,
      Function.update s.pc i (if s.mutex ≠ enc.LOCKD then .store else .idle)⟩
  | .store => ⟨enc.ULOCKD, Function.update s.pc i .wake⟩
  | .wake => s.setPc i .idle

/-- Every interleaving: any thread takes its next step, `FUTEX_WAKE` moves one sleeper to
its exchange, and a sleeper may also return spuriously. -/
inductive Step (enc : MutexEncoding) : MutexState ι → MutexState ι → Prop
  | run (s : MutexState ι) (i : ι) : Step enc s (threadStep enc s i)
  | wakeOne (s : MutexState ι) (i j : ι) (hi : s.pc i = .wake) (hj : s.pc j = .sleeping) :
      Step enc s ((s.setPc i .idle).setPc j .xchg)
  | spurious (s : MutexState ι) (j : ι) (hj : s.pc j = .sleeping) : Step enc s (s.setPc j .xchg)

def Init (enc : MutexEncoding) (s : MutexState ι) : Prop :=
  s.mutex = enc.ULOCKD ∧ ∀ i, s.pc i = .idle

/-- The thread that owns the mutex: in its critical section or inside `unlock` before
its store of `M_ULOCKD`. -/
def Pc.owner : Pc → Prop
  | .critical | .sub | .store => True
  | _ => False

instance : DecidablePred Pc.owner := fun p => by cases p <;> unfold Pc.owner <;> infer_instance

/-- The invariant of every run: at most one owner, and the mutex word tells who owns it. -/
structure Inv (enc : MutexEncoding) (s : MutexState ι) : Prop where
  excl : ∀ i j, (s.pc i).owner → (s.pc j).owner → i = j
  held : ∀ i, s.pc i = .critical ∨ s.pc i = .sub → s.mutex = enc.LOCKD ∨ s.mutex = enc.LOCKD_WQ
  releasing : ∀ i, s.pc i = .store →
    s.mutex = enc.LOCKD_WQ - enc.unlockSub ∨ s.mutex = enc.LOCKD_WQ
  free : (∀ i, ¬ (s.pc i).owner) → s.mutex = enc.ULOCKD

variable {enc : MutexEncoding} {s : MutexState ι}

theorem Pc.owner_critical : Pc.critical.owner := trivial
theorem Pc.owner_sub : Pc.sub.owner := trivial
theorem Pc.owner_store : Pc.store.owner := trivial

theorem setPc_owner {i j : ι} {p : Pc} (hp : ¬ p.owner) (h : ((s.setPc i p).pc j).owner) :
    (s.pc j).owner ∧ j ≠ i := by
  by_cases hj : j = i
  · subst hj; simp at h; exact absurd h hp
  · simpa [hj] using h

theorem update_owner {i j : ι} {p : Pc} (hp : ¬ p.owner)
    (h : (Function.update s.pc i p j).owner) : (s.pc j).owner ∧ j ≠ i :=
  setPc_owner hp (show ((s.setPc i p).pc j).owner from h)

omit [DecidableEq ι] in
theorem Inv.owner_mutex {j : ι} (h : Inv enc s) (ho : (s.pc j).owner) :
    s.mutex = enc.LOCKD ∨ s.mutex = enc.LOCKD_WQ ∨ s.mutex = enc.LOCKD_WQ - enc.unlockSub := by
  cases hj : s.pc j <;> simp only [hj, Pc.owner] at ho
  · have := h.held j (.inl hj); tauto
  · have := h.held j (.inr hj); tauto
  · have := h.releasing j hj; tauto

omit [DecidableEq ι] in
theorem Inv.no_owner (hv : enc.Valid) (h : Inv enc s) (hm : s.mutex = enc.ULOCKD) (j : ι) :
    ¬ (s.pc j).owner := fun ho => by
  rcases h.owner_mutex ho with h' | h' | h' <;> rw [h'] at hm
  exacts [hv.lockd_ne hm, hv.wq_ne hm, hv.transient hm]

theorem Inv.setPc_quiet {i : ι} {p : Pc} (h : Inv enc s) (hi : ¬ (s.pc i).owner)
    (hp : ¬ p.owner) : Inv enc (s.setPc i p) where
  excl j k hj hk := h.excl j k (setPc_owner hp hj).1 (setPc_owner hp hk).1
  held j hj := by
    have ho : ((s.setPc i p).pc j).owner := by rcases hj with hj | hj <;> rw [hj] <;> trivial
    have hne := (setPc_owner hp ho).2
    simpa using h.held j (by simpa [hne] using hj)
  releasing j hj := by
    have hne := (setPc_owner hp (hj ▸ Pc.owner_store)).2
    simpa using h.releasing j (by simpa [hne] using hj)
  free hno := by
    refine h.free fun j hj => ?_
    by_cases hji : j = i
    · exact hi (hji ▸ hj)
    · exact hno j (by simpa [hji] using hj)

theorem Inv.solo {i : ι} {p : Pc} {m : Int} (hother : ∀ j, j ≠ i → ¬ (s.pc j).owner)
    (hp : p.owner) (hheld : p = .critical ∨ p = .sub → m = enc.LOCKD ∨ m = enc.LOCKD_WQ)
    (hrel : p = .store → m = enc.LOCKD_WQ - enc.unlockSub ∨ m = enc.LOCKD_WQ) :
    Inv enc ⟨m, Function.update s.pc i p⟩ := by
  have hi : ∀ j, (Function.update s.pc i p j).owner → j = i := fun j hj => by
    by_contra hji
    rw [Function.update_noteq hji] at hj
    exact hother j hji hj
  refine ⟨fun j k hj hk => (hi j hj).trans (hi k hk).symm, fun j hj => ?_, fun j hj => ?_,
    fun hno => absurd (by simpa using hp) (hno i)⟩
  · have ho : (Function.update s.pc i p j).owner := by
      rcases hj with hj | hj <;> (dsimp only at hj; rw [hj]) <;> trivial
    dsimp only at hj
    rw [hi j ho, Function.update_same] at hj
    exact hheld hj
  · have hji := hi j (by dsimp only at hj; rw [hj]; trivial)
    dsimp only at hj
    rw [hji, Function.update_same] at hj
    exact hrel hj

theorem Inv.contend {i o : ι} {p : Pc} (h : Inv enc s) (hi : ¬ (s.pc i).owner)
    (ho : (s.pc o).owner) (hp : ¬ p.owner) :
    Inv enc ⟨enc.LOCKD_WQ, Function.update s.pc i p⟩ where
  excl j k hj hk := h.excl j k (update_owner hp hj).1 (update_owner hp hk).1
  held _ _ := .inr rfl
  releasing _ _ := .inr rfl
  free hno := by
    have hoi : o ≠ i := fun e => hi (e ▸ ho)
    exact absurd (by dsimp only; rw [Function.update_noteq hoi]; exact ho) (hno o)

theorem Inv.release {i : ι} {p : Pc} (h : Inv enc s) (hi : (s.pc i).owner) (hp : ¬ p.owner) :
    Inv enc ⟨enc.ULOCKD, Function.update s.pc i p⟩ where
  excl j _ hj _ := by
    obtain ⟨hj, hne⟩ := update_owner hp hj
    exact absurd (h.excl j i hj hi) hne
  held j hj := by
    have ho : (Function.update s.pc i p j).owner := by
      rcases hj with hj | hj <;> (dsimp only at hj; rw [hj]) <;> trivial
    obtain ⟨hj, hne⟩ := update_owner hp ho
    exact absurd (h.excl j i hj hi) hne
  releasing j hj := by
    obtain ⟨hj, hne⟩ := update_owner hp (hj ▸ Pc.owner_store)
    exact absurd (h.excl j i hj hi) hne
  free _ := rfl

theorem Inv.threadStep (hv : enc.Valid) (h : Inv enc s) (i : ι) : Inv enc (threadStep enc s i) := by
  have hsolo : (s.pc i).owner → ∀ j, j ≠ i → ¬ (s.pc j).owner :=
    fun hi j hji hj => hji (h.excl j i hj hi)
  cases hpc : s.pc i <;> simp only [Futex.threadStep, hpc]
  case idle => exact h.setPc_quiet (by rw [hpc]; exact id) id
  case cas =>
    split_ifs with hm
    · exact Inv.solo (fun j _ => h.no_owner hv hm j) trivial (fun _ => .inl rfl) (by simp)
    all_goals exact h.setPc_quiet (by rw [hpc]; exact id) id
  case xchg =>
    split_ifs with hm
    · exact Inv.solo (fun j _ => h.no_owner hv hm j) trivial (fun _ => .inr rfl) (by simp)
    · obtain ⟨o, ho⟩ : ∃ o, (s.pc o).owner := by
        by_contra hno; exact hm (h.free fun j hj => hno ⟨j, hj⟩)
      exact h.contend (by rw [hpc]; exact id) ho id
  case wait => split_ifs <;> exact h.setPc_quiet (by rw [hpc]; exact id) id
  case sleeping => exact h
  case critical =>
    exact Inv.solo (hsolo (by rw [hpc]; trivial)) trivial (fun _ => h.held i (.inl hpc)) (by simp)
  case sub =>
    have hheld := h.held i (.inr hpc)
    split_ifs with hm
    · have hwq : s.mutex = enc.LOCKD_WQ := hheld.resolve_left hm
      exact Inv.solo (hsolo (by rw [hpc]; trivial)) trivial (by simp) (fun _ => .inl (by rw [hwq]))
    · rw [show s.mutex - enc.unlockSub = enc.ULOCKD by rw [not_not.mp hm, hv.release]]
      exact h.release (by rw [hpc]; trivial) id
  case store => exact h.release (by rw [hpc]; trivial) id
  case wake => exact h.setPc_quiet (by rw [hpc]; exact id) id

theorem Inv.step (hv : enc.Valid) (h : Inv enc s) {t : MutexState ι} (hs : Step enc s t) :
    Inv enc t := by
  cases hs with
  | run i => exact h.threadStep hv i
  | wakeOne i j hi hj =>
    have hj' : ¬ ((s.setPc i .idle).pc j).owner := by
      simp only [MutexState.setPc_pc]; split_ifs <;> simp [hj, Pc.owner]
    exact (h.setPc_quiet (by rw [hi]; exact id) id).setPc_quiet hj' id
  | spurious j hj => exact h.setPc_quiet (by rw [hj]; exact id) id

omit [DecidableEq ι] in
theorem Inv.init (s : MutexState ι) (hs : Init enc s) : Inv enc s where
  excl i _ hi _ := absurd hi (by rw [hs.2 i]; exact id)
  held i hi := by rcases hi with hi | hi <;> simp [hs.2 i] at hi
  releasing i hi := by simp [hs.2 i] at hi
  free _ := hs.1

theorem mutual_exclusion (hv : enc.Valid) {s : MutexState ι} (hs : Reachable (Init enc) (Step enc) s) :
    (∀ i j, s.pc i = .critical → s.pc j = .critical → i = j) ∧
    (∀ i, s.pc i = .critical → s.mutex = enc.LOCKD ∨ s.mutex = enc.LOCKD_WQ) := by
  have h : Inv enc s := hs.invariant Inv.init fun _ _ h hst => h.step hv hst
  exact ⟨fun i j hi hj => h.excl i j (hi ▸ trivial) (hj ▸ trivial), fun i hi => h.held i (.inl hi)⟩

theorem futexEncoding_valid : futexEncoding.Valid := ⟨by decide, by decide, by decide, rfl, by decide⟩

theorem part006Encoding_valid : part006Encoding.Valid := ⟨by decide, by decide, by decide, rfl, by decide⟩

theorem ermFutexEncoding_valid : ermFutexEncoding.Valid :=
  ⟨by decide, by decide, by decide, rfl, by decide⟩

/-- Mutual exclusion for both encodings of the repository (`futex.c`, `unnamed/part_006`,
`erm_futex.c`), any number of threads, every interleaving. -/
theorem futex_mutual_exclusion {ι : Type*} [DecidableEq ι] :
    ∀ enc ∈ [futexEncoding, part006Encoding, ermFutexEncoding], ∀ s : MutexState ι,
      Reachable (Init enc) (Step enc) s →
      (∀ i j, s.pc i = .critical → s.pc j = .critical → i = j) ∧
      (∀ i, s.pc i = .critical → s.mutex = enc.LOCKD ∨ s.mutex = enc.LOCKD_WQ) := by
  intro enc henc s hs
  have hv : enc.Valid := by
    simp only [List.mem_cons, List.mem_singleton, List.not_mem_nil, or_false] at henc
    rcases henc with rfl | rfl | rfl
    exacts [futexEncoding_valid, part006Encoding_valid, ermFutexEncoding_valid]
  exact mutual_exclusion hv hs

/-- Two threads after thread 0 took the shifted mutex of `erm_futex.c` with its
compare-exchange: thread 0 is the one in the critical section and the word is `M_LOCKD`. -/
theorem futex_mutual_exclusion_erm_taken :
    let s : MutexState (Fin 2) := ⟨0x1000, fun i => if i = 0 then .critical else .idle⟩
    ermFutexEncoding ∈ [futexEncoding, part006Encoding, ermFutexEncoding] ∧
    Reachable (Init ermFutexEncoding) (Step ermFutexEncoding) s ∧
    ((∀ i j, s.pc i = .critical → s.pc j = .critical → i = j) ∧
      (∀ i, s.pc i = .critical → s.mutex = ermFutexEncoding.LOCKD ∨
        s.mutex = ermFutexEncoding.LOCKD_WQ)) := by
  intro s
  have hr : Reachable (Init ermFutexEncoding) (Step ermFutexEncoding) s := by
    have h0 : Reachable (Init ermFutexEncoding) (Step ermFutexEncoding)
        (⟨0x800, fun _ => .idle⟩ : MutexState (Fin 2)) := .init ⟨rfl, fun _ => rfl⟩
    have h2 := (h0.step (.run _ 0)).step (.run _ 0)
    have he : threadStep ermFutexEncoding (threadStep ermFutexEncoding
        (⟨0x800, fun _ => .idle⟩ : MutexState (Fin 2)) 0) 0 = s := by
      simp only [threadStep, MutexState.setPc, Function.update_same, ermFutexEncoding, if_true,
        Function.update_idem]
      congr 1
      funext i
      simp [Function.update_apply]
    rwa [he] at h2
  exact ⟨by simp, hr, futex_mutual_exclusion _ (by simp) s hr⟩

end NetworkingHowto.Sync.Futex
