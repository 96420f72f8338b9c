import NetworkingHowto.Reachable
import Mathlib.Algebra.Order.BigOperators.Group.Finset
import Mathlib.Data.Fintype.Card

/-! The readers-writers program of `unnamed/part_005`, with the `pthread_rwlock_t` modelled by its
contract. -/
namespace NetworkingHowto.Sync.RwLock

def NUM_WRITERS : Nat := 4

def NUM_READERS : Nat := 16

def NUM_THREADS : Nat := NUM_WRITERS + NUM_READERS

def NUM_ITERATIONS : Nat := 10000000

def ONE_INCREMENT : Nat := 10000000

/-- What `thread_reader` waits for: `NUM_WRITERS * NUM_ITERATIONS * ONE_INCREMENT`. -/
def FINAL : Nat := NUM_WRITERS * NUM_ITERATIONS * ONE_INCREMENT

/-- Where a thread stands: `thread_writer` with its loop counter `i`, or `thread_reader` with
its `args->copy`. -/
inductive Pc where
  | wloop (i : Nat)       -- the test `i < NUM_ITERATIONS`
  | wlock (i : Nat)       -- `pthread_rwlock_wrlock`
  | load (i : Nat)        -- `*(args->var) += ONE_INCREMENT`: the load
  | store (i v : Nat)     -- its store of `v + ONE_INCREMENT`
  | unlock (i : Nat)      -- the writer's `pthread_rwlock_unlock`
  | wdone                 -- `thread_writer` has returned
  | rlock                 -- `pthread_rwlock_rdlock`
  | read                  -- `args->copy = *args->var`
  | runlock (copy : Nat)  -- the reader's `pthread_rwlock_unlock`
  | test (copy : Nat)     -- after `nanosleep`, the test of the `do`-`while`
  | rdone                 -- `thread_reader` has returned
deriving DecidableEq, Repr

structure RwState (ι : Type*) where
  writer : Bool
  readers : Nat
  var : Nat
  pc : ι → Pc

variable {ι : Type*} [DecidableEq ι]

def RwState.setPc (s : RwState ι) (t : ι) (p : Pc) : RwState ι :=
  { s with pc := Function.update s.pc t p }

/-- One atomic step of thread `t`; a thread the lock makes wait does not move. -/
def rwStep (s : RwState ι) (t : ι) : RwState ι :=
  match s.pc t with
  | .wloop i => s.setPc t (if i < NUM_ITERATIONS then .wlock i else .wdone)
  | .wlock i =>
    if s.writer = false ∧ s.readers = 0 then
      { s with writer := true, pc := Function.update s.pc t (.load i) }
    else s
  | .load i => s.setPc t (.store i s.var)
  | .store i v =>
    { s with var := (v + ONE_INCREMENT) % 2^64, pc := Function.update s.pc t (.unlock i) }
  | .unlock i => { s with writer := false, pc := Function.update s.pc t (.wloop (i + 1)) }
  | .rlock =>
    if s.writer = false then
      { s with readers := s.readers + 1, pc := Function.update s.pc t .read }
    else s
  | .read => s.setPc t (.runlock s.var)
  | .runlock c => { s with readers := s.readers - 1, pc := Function.update s.pc t (.test c) }
  | .test c => s.setPc t (if c ≠ FINAL then .rlock else .rdone)
  | .wdone | .rdone => s

inductive Step : RwState ι → RwState ι → Prop
  | run (s : RwState ι) (t : ι) : Step s (rwStep s t)

/-- `main`: `var = 0U`, `PTHREAD_RWLOCK_INITIALIZER`, and thread `t` started as a writer when
`isWriter t`, as a reader otherwise. -/
def RwState.init (isWriter : ι → Bool) : RwState ι :=
  ⟨false, 0, 0, fun t => if isWriter t then .wloop 0 else .rlock⟩

/-- `main` starts `thread_writer` for `i < NUM_WRITERS` and `thread_reader` for the others. -/
def mainIsWriter (i : Fin NUM_THREADS) : Bool := decide (i.val < NUM_WRITERS)

def Pc.isWriter : Pc → Bool
  | .wloop _ | .wlock _ | .load _ | .store _ _ | .unlock _ | .wdone => true
  | .rlock | .read | .runlock _ | .test _ | .rdone => false

def Pc.wholds : Pc → Prop
  | .load _ | .store _ _ | .unlock _ => True
  | _ => False

def Pc.rholds : Pc → Nat
  | .read | .runlock _ => 1
  | _ => 0

def Pc.wcount : Pc → Nat
  | .wloop i | .wlock i | .load i | .store i _ => i
  | .unlock i => i + 1
  | .wdone => NUM_ITERATIONS
  | .rlock | .read | .runlock _ | .test _ | .rdone => 0

def Pc.Bounded : Pc → Prop
  | .wloop i => i ≤ NUM_ITERATIONS
  | .wlock i | .load i | .store i _ | .unlock i => i < NUM_ITERATIONS
  | _ => True

theorem update_same_ne {f : ι → Pc} {t : ι} {p q : Pc} (h : p ≠ q) :
    Function.update f t p t ≠ q := by
  rw [Function.update_same]
  exact h

theorem rwStep_pc_ne {t : ι} (hret : s.pc t ≠ .wdone ∧ s.pc t ≠ .rdone)
    (hwfree : ∀ i, s.pc t = .wlock i → s.writer = false ∧ s.readers = 0)
    (hrfree : s.pc t = .rlock → s.writer = false) : (rwStep s t).pc t ≠ s.pc t := by
  unfold rwStep
  split <;> rename_i ht <;> rw [ht]
  · exact update_same_ne (by split_ifs <;> exact nofun)
  · rw [if_pos (hwfree _ ht)]
    exact update_same_ne nofun
  · exact update_same_ne nofun
  · exact update_same_ne nofun
  · exact update_same_ne nofun
  · rw [if_pos (hrfree ht)]
    exact update_same_ne nofun
  · exact update_same_ne nofun
  · exact update_same_ne nofun
  · exact update_same_ne (by split_ifs <;> exact nofun)
  · exact absurd ht hret.1
  · exact absurd ht hret.2

theorem rwStep_pc_ne_of_holds {t : ι} (hholds : (s.pc t).wholds ∨ (s.pc t).rholds ≠ 0) :
    (rwStep s t).pc t ≠ s.pc t := by
  have hq : ∀ q, s.pc t = q → q.wholds ∨ q.rholds ≠ 0 := fun q hq => hq ▸ hholds
  refine rwStep_pc_ne ⟨fun h => ?_, fun h => ?_⟩ (fun _ h => ?_) fun h => ?_ <;>
    exact absurd (hq _ h) (by simp [Pc.wholds, Pc.rholds])

variable [Fintype ι] (isWriter : ι → Bool)

/-- The invariant of every run: threads keep their roles; the lock's writer flag is set
exactly while a writer holds it, one at most, and then no reader holds it; the reader count
is the number of readers holding it; a writer about to store has loaded the current `var`;
`var` is `ONE_INCREMENT` times the increments stored, with no wrap; every copy a reader holds
is such a multiple and at most `var`; and a reader has returned only once every writer has
stored all its increments. -/
structure Inv (s : RwState ι) : Prop where
  role : ∀ t, (s.pc t).isWriter = isWriter t
  writer : s.writer = true ↔ ∃ t, (s.pc t).wholds
  excl : ∀ t u, (s.pc t).wholds → (s.pc u).wholds → t = u
  readers : s.readers = ∑ t, (s.pc t).rholds
  alone : s.writer = true → s.readers = 0
  loaded : ∀ t i v, s.pc t = .store i v → v = s.var
  bounded : ∀ t, (s.pc t).Bounded
  count : s.var = ONE_INCREMENT * ∑ t, (s.pc t).wcount
  copy : ∀ t c, (s.pc t = .runlock c ∨ s.pc t = .test c) → c % ONE_INCREMENT = 0 ∧ c ≤ s.var
  finished : ∀ t, s.pc t = .rdone → ∀ u, isWriter u = true → (s.pc u).wcount = NUM_ITERATIONS

variable {isWriter} {s : RwState ι}

omit [DecidableEq ι] [Fintype ι] in
theorem init_pc (t : ι) :
    (RwState.init isWriter).pc t = .wloop 0 ∧ isWriter t = true ∨
      (RwState.init isWriter).pc t = .rlock ∧ isWriter t = false := by
  dsimp only [RwState.init]
  cases isWriter t
  · exact .inr ⟨rfl, rfl⟩
  · exact .inl ⟨rfl, rfl⟩

omit [DecidableEq ι] in
theorem Inv.init : Inv isWriter (RwState.init isWriter) where
  role t := by rcases init_pc t with ⟨h, hw⟩ | ⟨h, hw⟩ <;> rw [h, hw] <;> rfl
  writer := ⟨Bool.noConfusion, fun ⟨t, ht⟩ => by
    rcases init_pc t with ⟨h, _⟩ | ⟨h, _⟩ <;> rw [h] at ht <;> exact ht.elim⟩
  excl t _ ht := by rcases init_pc t with ⟨h, _⟩ | ⟨h, _⟩ <;> rw [h] at ht <;> exact ht.elim
  readers := (Finset.sum_eq_zero fun t _ => by
    rcases init_pc t with ⟨h, _⟩ | ⟨h, _⟩ <;> rw [h] <;> rfl).symm
  alone h := Bool.noConfusion h
  loaded t i v ht := by rcases init_pc t with ⟨h, _⟩ | ⟨h, _⟩ <;> rw [h] at ht <;> cases ht
  bounded t := by
    rcases init_pc t with ⟨h, _⟩ | ⟨h, _⟩ <;> rw [h] <;> simp only [Pc.Bounded, Nat.zero_le]
  count := (Nat.mul_eq_zero.mpr (.inr (Finset.sum_eq_zero fun t _ => by
    rcases init_pc t with ⟨h, _⟩ | ⟨h, _⟩ <;> rw [h] <;> rfl))).symm
  copy t c ht := by rcases init_pc t with ⟨h, _⟩ | ⟨h, _⟩ <;> rw [h] at ht <;> simp at ht
  finished t ht := by rcases init_pc t with ⟨h, _⟩ | ⟨h, _⟩ <;> rw [h] at ht <;> cases ht

omit [DecidableEq ι] in
theorem Inv.wcount_le (h : Inv isWriter s) (t : ι) :
    (s.pc t).wcount ≤ if isWriter t then NUM_ITERATIONS else 0 := by
  have hb := h.bounded t
  rw [← h.role t]
  generalize s.pc t = p at hb ⊢
  cases p <;> simp only [Pc.wcount, Pc.isWriter, Pc.Bounded, if_true, if_false] at hb ⊢ <;>
    omega

variable (hw : (Finset.univ.filter fun t => isWriter t = true).card = NUM_WRITERS)

omit [DecidableEq ι] in
include hw in
theorem Inv.sum_wcount_le (h : Inv isWriter s) :
    ∑ t, (s.pc t).wcount ≤ NUM_WRITERS * NUM_ITERATIONS ∧
      ∀ t, isWriter t = true → (s.pc t).wcount < NUM_ITERATIONS →
        ∑ t, (s.pc t).wcount < NUM_WRITERS * NUM_ITERATIONS := by
  have htotal : ∑ t, (if isWriter t then NUM_ITERATIONS else 0) = NUM_WRITERS * NUM_ITERATIONS := by
    rw [Finset.sum_ite, Finset.sum_const_zero, Nat.add_zero,
      Finset.sum_const_nat fun _ _ => rfl, hw]
  refine ⟨htotal ▸ Finset.sum_le_sum fun t _ => h.wcount_le t, fun t ht hlt => ?_⟩
  rw [← htotal]
  refine Finset.sum_lt_sum (fun u _ => h.wcount_le u) ⟨t, Finset.mem_univ t, ?_⟩
  rw [if_pos ht]
  exact hlt

theorem Inv.update (h : Inv isWriter s) {t : ι} {p : Pc} {w : Bool} {r v : Nat}
    (hrole : p.isWriter = (s.pc t).isWriter)
    (hwriter : w = true ↔ p.wholds ∨ ∃ u, u ≠ t ∧ (s.pc u).wholds)
    (hexcl : p.wholds → ∀ u, (s.pc u).wholds → u = t)
    (hreaders : r + (s.pc t).rholds = s.readers + p.rholds) (halone : w = true → r = 0)
    (hloaded : ∀ i v', p = .store i v' → v' = v)
    (hvar : v = s.var ∨ ∀ u, u ≠ t → ¬ (s.pc u).wholds) (hmono : s.var ≤ v) (hb : p.Bounded)
    (hcount : v + ONE_INCREMENT * (s.pc t).wcount = s.var + ONE_INCREMENT * p.wcount)
    (hcopy : ∀ c, (p = .runlock c ∨ p = .test c) → c % ONE_INCREMENT = 0 ∧ c ≤ v)
    (hdone : p = .rdone → ∀ u, u ≠ t → isWriter u = true → (s.pc u).wcount = NUM_ITERATIONS)
    (hkeep : (∃ u, u ≠ t ∧ s.pc u = .rdone) → isWriter t = true →
      p.wcount = (s.pc t).wcount) :
    Inv isWriter ⟨w, r, v, Function.update s.pc t p⟩ := by
  have hO : ONE_INCREMENT = 10000000 := rfl
  have hr := sum_update_add Pc.rholds s.pc (Finset.mem_univ t) p
  have hc := sum_update_add Pc.wcount s.pc (Finset.mem_univ t) p
  have hreaders' := h.readers
  have hcount' := h.count
  have hrolet : p.isWriter = isWriter t := hrole.trans (h.role t)
  refine ⟨(Function.forall_update_iff _ fun u (q : Pc) => q.isWriter = isWriter u).mpr
      ⟨hrolet, fun u _ => h.role u⟩,
    hwriter.trans (Function.exists_update_iff _ fun _ (q : Pc) => q.wholds).symm, fun u u' hu hu' => ?_,
    show r = ∑ u, (Function.update s.pc t p u).rholds by omega, halone,
    (Function.forall_update_iff _ fun _ (q : Pc) => ∀ i v', q = .store i v' → v' = v).mpr
      ⟨hloaded, fun u hut i v' hu => ?_⟩,
    (Function.forall_update_iff _ fun _ (q : Pc) => q.Bounded).mpr ⟨hb, fun u _ => h.bounded u⟩, ?_,
    (Function.forall_update_iff _ fun _ (q : Pc) => ∀ c, (q = .runlock c ∨ q = .test c) →
      c % ONE_INCREMENT = 0 ∧ c ≤ v).mpr
      ⟨hcopy, fun u _ c hu => (h.copy u c hu).imp_right fun hc => hc.trans hmono⟩,
    (Function.forall_update_iff _ fun _ (q : Pc) => q = .rdone → ∀ u', isWriter u' = true →
      (Function.update s.pc t p u').wcount = NUM_ITERATIONS).mpr ⟨fun hp => ?_, fun u hut hu => ?_⟩⟩
  · -- at most one writer holds the lock
    dsimp only at hu hu'
    rcases eq_or_ne u t with rfl | hut <;> rcases eq_or_ne u' u with rfl | hu'u
    · rfl
    · rw [Function.update_same] at hu
      rw [Function.update_noteq hu'u] at hu'
      exact (hexcl hu u' hu').symm
    · rfl
    · rw [Function.update_noteq hut] at hu
      rcases eq_or_ne u' t with rfl | hu't
      · rw [Function.update_same] at hu'
        exact hexcl hu' u hu
      · rw [Function.update_noteq hu't] at hu'
        exact h.excl u u' hu hu'
  · -- another thread about to store loaded `var`, which moves only under the lock
    rcases hvar with hv | hfree
    · exact (h.loaded u i v' hu).trans hv.symm
    · exact absurd (hu ▸ trivial) (hfree u hut)
  · show v = ONE_INCREMENT * ∑ u, (Function.update s.pc t p u).wcount
    rw [hO] at hcount hcount' ⊢
    omega
  · -- `t` returns as a reader: it is no writer
    refine (Function.forall_update_iff _ fun u' (q : Pc) => isWriter u' = true →
      q.wcount = NUM_ITERATIONS).mpr ⟨fun hwt => ?_, fun u' hu't => hdone hp u' hu't⟩
    rw [← hrolet, hp] at hwt
    cases hwt
  · -- another reader had returned: `t` keeps its increments
    exact (Function.forall_update_iff _ fun u' (q : Pc) => isWriter u' = true →
      q.wcount = NUM_ITERATIONS).mpr ⟨fun hwt => (hkeep ⟨u, hut, hu⟩ hwt).trans
        (h.finished u hu t hwt), fun u' _ => h.finished u hu u'⟩

omit [DecidableEq ι] in
theorem Inv.bounded_of (h : Inv isWriter s) {t : ι} {q : Pc} (ht : s.pc t = q) : q.Bounded :=
  ht ▸ h.bounded t

omit [DecidableEq ι] in
theorem Inv.isWriter_of (h : Inv isWriter s) {t : ι} {q : Pc} (ht : s.pc t = q) :
    isWriter t = q.isWriter :=
  ht ▸ (h.role t).symm

theorem Inv.setPc (h : Inv isWriter s) {t : ι} {q p : Pc} (ht : s.pc t = q)
    (hrole : p.isWriter = q.isWriter) (hholds : p.wholds ↔ q.wholds) (hr : p.rholds = q.rholds)
    (hloaded : ∀ i v, p = .store i v → v = s.var) (hb : p.Bounded) (hc : p.wcount = q.wcount)
    (hcopy : ∀ c, (p = .runlock c ∨ p = .test c) → c % ONE_INCREMENT = 0 ∧ c ≤ s.var)
    (hdone : p = .rdone → ∀ u, u ≠ t → isWriter u = true → (s.pc u).wcount = NUM_ITERATIONS) :
    Inv isWriter (s.setPc t p) := by
  subst ht
  refine h.update hrole (h.writer.trans ⟨fun ⟨u, hu⟩ => ?_, ?_⟩) (fun hp u hu => h.excl u t hu
    (hholds.mp hp)) (by rw [hr]) h.alone hloaded (.inl rfl) le_rfl hb (by rw [hc]) hcopy
    hdone fun _ _ => hc
  · rcases eq_or_ne u t with rfl | hut
    · exact .inl (hholds.mpr hu)
    · exact .inr ⟨u, hut, hu⟩
  · rintro (hp | ⟨u, _, hu⟩)
    · exact ⟨t, hholds.mp hp⟩
    · exact ⟨u, hu⟩

theorem Inv.wloop (h : Inv isWriter s) {t : ι} {i : Nat} (ht : s.pc t = .wloop i) :
    Inv isWriter (s.setPc t (if i < NUM_ITERATIONS then .wlock i else .wdone)) := by
  by_cases hi : i < NUM_ITERATIONS
  · rw [if_pos hi]
    exact h.setPc ht rfl Iff.rfl rfl (fun _ _ => nofun) hi rfl (fun _ hp => hp.elim nofun nofun) nofun
  · have hb : i ≤ NUM_ITERATIONS := h.bounded_of ht
    rw [if_neg hi]
    exact h.setPc ht rfl Iff.rfl rfl (fun _ _ => nofun) trivial (by show NUM_ITERATIONS = i; omega)
      (fun _ hp => hp.elim nofun nofun) nofun

theorem Inv.wlock (h : Inv isWriter s) {t : ι} {i : Nat} (ht : s.pc t = .wlock i)
    (hfree : s.writer = false ∧ s.readers = 0) :
    Inv isWriter { s with writer := true, pc := Function.update s.pc t (.load i) } := by
  have hnone : ∀ u, ¬ (s.pc u).wholds := fun u hu => by
    rw [h.writer.mpr ⟨u, hu⟩] at hfree
    exact Bool.noConfusion hfree.1
  exact h.update (by rw [ht]; rfl) (iff_of_true rfl (.inl trivial))
    (fun _ u hu => absurd hu (hnone u)) (by rw [ht, hfree.2]; rfl) (fun _ => hfree.2)
    (fun _ _ => nofun) (.inl rfl) le_rfl (h.bounded_of ht : i < NUM_ITERATIONS) (by rw [ht]; rfl)
    (fun _ hp => hp.elim nofun nofun) nofun fun _ _ => by rw [ht]; rfl

theorem Inv.load (h : Inv isWriter s) {t : ι} {i : Nat} (ht : s.pc t = .load i) :
    Inv isWriter (s.setPc t (.store i s.var)) :=
  h.setPc ht rfl Iff.rfl rfl (fun _ _ hp => (Pc.store.inj hp).2.symm)
    (h.bounded_of ht : i < NUM_ITERATIONS) rfl
    (fun _ hp => hp.elim nofun nofun) nofun

include hw in
theorem Inv.store (h : Inv isWriter s) {t : ι} {i v : Nat} (ht : s.pc t = .store i v) :
    Inv isWriter { s with var := (v + ONE_INCREMENT) % 2^64,
                          pc := Function.update s.pc t (.unlock i) } := by
  have hO : ONE_INCREMENT = 10000000 := rfl
  have hv : v = s.var := h.loaded t i v ht
  have hwt : isWriter t = true := h.isWriter_of ht
  have hlt : (s.pc t).wcount < NUM_ITERATIONS := by rw [ht]; exact h.bounded_of ht
  have hsum := (h.sum_wcount_le hw).2 t hwt hlt
  have hcount := h.count
  have hholds : (s.pc t).wholds := by rw [ht]; trivial
  have hmod : (v + ONE_INCREMENT) % 2^64 = v + ONE_INCREMENT := by
    rw [hv, hcount, hO]
    exact Nat.mod_eq_of_lt (by simp only [NUM_WRITERS, NUM_ITERATIONS] at hsum; omega)
  rw [hmod]
  exact h.update (by rw [ht]; rfl) (iff_of_true (h.writer.mpr ⟨t, hholds⟩) (.inl trivial))
    (fun _ u hu => h.excl u t hu hholds) (by rw [ht]; rfl) h.alone (fun _ _ => nofun)
    (.inr fun u hut hu => hut (h.excl u t hu hholds)) (by omega) (h.bounded_of ht : i < _)
    (by
      rw [ht, hv]
      show s.var + ONE_INCREMENT + ONE_INCREMENT * i = s.var + ONE_INCREMENT * (i + 1)
      rw [Nat.mul_succ]; omega) (fun _ hp => hp.elim nofun nofun)
    nofun fun ⟨u, _, hu⟩ _ => absurd (h.finished u hu t hwt) (Nat.ne_of_lt hlt)

theorem Inv.unlock (h : Inv isWriter s) {t : ι} {i : Nat} (ht : s.pc t = .unlock i) :
    Inv isWriter { s with writer := false, pc := Function.update s.pc t (.wloop (i + 1)) } := by
  have hholds : (s.pc t).wholds := by rw [ht]; trivial
  have hi : i < NUM_ITERATIONS := h.bounded_of ht
  exact h.update (by rw [ht]; rfl)
    (iff_of_false Bool.false_ne_true fun hp => hp.elim id fun ⟨u, hut, hu⟩ =>
      hut (h.excl u t hu hholds))
    nofun (by rw [ht]; rfl) nofun (fun _ _ => nofun) (.inl rfl) le_rfl (hi : i + 1 ≤ _)
    (by rw [ht]; rfl) (fun _ hp => hp.elim nofun nofun) nofun fun _ _ => by rw [ht]; rfl

theorem Inv.rlock (h : Inv isWriter s) {t : ι} (ht : s.pc t = .rlock) (hfree : s.writer = false) :
    Inv isWriter { s with readers := s.readers + 1, pc := Function.update s.pc t .read } := by
  have hnone : ∀ u, ¬ (s.pc u).wholds := fun u hu => by
    rw [h.writer.mpr ⟨u, hu⟩] at hfree
    exact Bool.noConfusion hfree
  exact h.update (by rw [ht]; rfl)
    (iff_of_false (by rw [hfree]; exact Bool.false_ne_true) fun hp => hp.elim id fun ⟨u, _, hu⟩ =>
      hnone u hu)
    nofun (by rw [ht]; rfl) (fun hw' => absurd hw' (by rw [hfree]; exact Bool.false_ne_true))
    (fun _ _ => nofun) (.inl rfl) le_rfl trivial (by rw [ht]; rfl) (fun _ hp => hp.elim nofun nofun) nofun
    fun _ _ => by rw [ht]; rfl

theorem Inv.read (h : Inv isWriter s) {t : ι} (ht : s.pc t = .read) :
    Inv isWriter (s.setPc t (.runlock s.var)) := by
  have hmul : s.var % ONE_INCREMENT = 0 := by rw [h.count]; exact Nat.mul_mod_right _ _
  refine h.setPc ht rfl Iff.rfl rfl (fun _ _ => nofun) trivial rfl ?_ nofun
  rintro c (hc | hc) <;> cases hc
  exact ⟨hmul, le_rfl⟩

theorem Inv.runlock (h : Inv isWriter s) {t : ι} {c : Nat} (ht : s.pc t = .runlock c) :
    Inv isWriter { s with readers := s.readers - 1, pc := Function.update s.pc t (.test c) } := by
  have hpos : 1 ≤ s.readers := by
    rw [h.readers, ← show (s.pc t).rholds = 1 by rw [ht]; rfl]
    exact Finset.single_le_sum (fun u _ => Nat.zero_le (s.pc u).rholds) (Finset.mem_univ t)
  have hfree : s.writer = false := by
    cases hwr : s.writer
    · rfl
    · have := h.alone hwr
      omega
  refine h.update (by rw [ht]; rfl) (iff_of_false (by rw [hfree]; exact Bool.false_ne_true)
    fun hp => hp.elim id fun ⟨u, _, hu⟩ => absurd (h.writer.mpr ⟨u, hu⟩) (by rw [hfree]; decide))
    nofun (by rw [ht]; show _ + 1 = _ + 0; omega) (fun hw' => absurd hw' (by rw [hfree]; decide))
    (fun _ _ => nofun) (.inl rfl) le_rfl trivial (by rw [ht]; rfl) ?_ nofun
    fun _ _ => by rw [ht]; rfl
  rintro c' (hc | hc) <;> cases hc
  exact h.copy t c (.inl ht)

include hw in
theorem Inv.test (h : Inv isWriter s) {t : ι} {c : Nat} (ht : s.pc t = .test c) :
    Inv isWriter (s.setPc t (if c ≠ FINAL then .rlock else .rdone)) := by
  by_cases hc : c = FINAL
  · rw [if_neg (not_not.mpr hc)]
    refine h.setPc ht rfl Iff.rfl rfl (fun _ _ => nofun) trivial rfl (fun _ hp => hp.elim nofun nofun)
      fun _ u _ hu => ?_
    have hO : ONE_INCREMENT = 10000000 := rfl
    have hcopy := (h.copy t c (.inr ht)).2
    have hcount := h.count
    have hle := h.wcount_le u
    rw [if_pos hu] at hle
    by_contra hne
    have hsum := (h.sum_wcount_le hw).2 u hu (Nat.lt_of_le_of_ne hle hne)
    rw [hc, hcount, hO] at hcopy
    simp only [FINAL, NUM_WRITERS, NUM_ITERATIONS, hO] at hcopy hsum
    omega
  · rw [if_pos hc]
    exact h.setPc ht rfl Iff.rfl rfl (fun _ _ => nofun) trivial rfl (fun _ hp => hp.elim nofun nofun) nofun

include hw in
theorem Inv.step (h : Inv isWriter s) (t : ι) : Inv isWriter (rwStep s t) := by
  unfold rwStep
  split
  next i ht => exact h.wloop ht
  next i ht =>
    by_cases hfree : s.writer = false ∧ s.readers = 0
    · rw [if_pos hfree]
      exact h.wlock ht hfree
    · rw [if_neg hfree]
      exact h
  next i ht => exact h.load ht
  next i v ht => exact h.store hw ht
  next i ht => exact h.unlock ht
  next ht =>
    by_cases hfree : s.writer = false
    · rw [if_pos hfree]
      exact h.rlock ht hfree
    · rw [if_neg hfree]
      exact h
  next ht => exact h.read ht
  next c ht => exact h.runlock ht
  next c ht => exact h.test hw ht
  next => exact h
  next => exact h

include hw in
theorem Inv.reachable (h : Reachable (· = RwState.init isWriter) Step s) : Inv isWriter s :=
  Reachable.invariant (fun _ hs => hs ▸ Inv.init) (fun _ _ hs hst => by cases hst; exact hs.step hw _)
    h

/-- With `NUM_WRITERS` writers, whatever the number of readers and the interleaving: a writer
holding the lock holds it alone, with no reader; `var` is `ONE_INCREMENT` times the
increments stored so far, so none is lost and none wraps; every copy a reader takes is such a
multiple and never ahead of `var`; a reader leaves only once every writer has stored all its
`NUM_ITERATIONS` increments; and once every thread has returned, `var` is the total the
readers wait for. -/
theorem rwlock_writer_alone_no_lost_update
    (hw : (Finset.univ.filter fun t => isWriter t = true).card = NUM_WRITERS)
    (h : Reachable (· = RwState.init isWriter) Step s) :
    (∀ t, (s.pc t).wholds → ∀ u, u ≠ t → ¬ (s.pc u).wholds ∧ (s.pc u).rholds = 0) ∧
    s.var = ONE_INCREMENT * ∑ t, (s.pc t).wcount ∧
    (∀ t c, (s.pc t = .runlock c ∨ s.pc t = .test c) → c % ONE_INCREMENT = 0 ∧ c ≤ s.var) ∧
    (∀ t, s.pc t = .rdone → ∀ u, isWriter u = true → (s.pc u).wcount = NUM_ITERATIONS) ∧
    ((∀ t, s.pc t = .wdone ∨ s.pc t = .rdone) → s.var = FINAL) := by
  have hinv := Inv.reachable hw h
  refine ⟨fun t ht u hut => ⟨fun hu => hut (hinv.excl u t hu ht), ?_⟩, hinv.count, hinv.copy,
    hinv.finished, fun hdone => ?_⟩
  · have hzero := hinv.readers.symm.trans (hinv.alone (hinv.writer.mpr ⟨t, ht⟩))
    exact (Finset.sum_eq_zero_iff.mp hzero) u (Finset.mem_univ u)
  · have hwc : ∀ t, (s.pc t).wcount = if isWriter t then NUM_ITERATIONS else 0 := fun t => by
      rw [← hinv.role t]
      rcases hdone t with hd | hd <;> rw [hd] <;> rfl
    rw [hinv.count, Finset.sum_congr rfl fun t _ => hwc t, Finset.sum_ite, Finset.sum_const_zero,
      Nat.add_zero, Finset.sum_const_nat fun _ _ => rfl, hw, FINAL, Nat.mul_comm ONE_INCREMENT]

/-- `main`'s threads: writer 0 adds `ONE_INCREMENT` under the write lock and releases it, then
reader 4 takes the read lock and copies `var`. -/
theorem rwlock_writer_alone_no_lost_update_main :
    ∃ s : RwState (Fin NUM_THREADS),
      (Finset.univ.filter fun t => mainIsWriter t = true).card = NUM_WRITERS ∧
      Reachable (· = RwState.init mainIsWriter) Step s ∧
      s.pc ⟨0, by decide⟩ = .wloop 1 ∧ s.pc ⟨4, by decide⟩ = .test ONE_INCREMENT ∧
      ((∀ t, (s.pc t).wholds → ∀ u, u ≠ t → ¬ (s.pc u).wholds ∧ (s.pc u).rholds = 0) ∧
        s.var = ONE_INCREMENT * ∑ t, (s.pc t).wcount ∧
        (∀ t c, (s.pc t = .runlock c ∨ s.pc t = .test c) → c % ONE_INCREMENT = 0 ∧ c ≤ s.var) ∧
        (∀ t, s.pc t = .rdone → ∀ u, mainIsWriter u = true → (s.pc u).wcount = NUM_ITERATIONS) ∧
        ((∀ t, s.pc t = .wdone ∨ s.pc t = .rdone) → s.var = FINAL)) := by
  have hw : (Finset.univ.filter fun t => mainIsWriter t = true).card = NUM_WRITERS := by decide
  have h0 : Reachable (· = RwState.init mainIsWriter) Step (RwState.init mainIsWriter) := .init rfl
  have h1 := ((((h0.step (.run _ ⟨0, by decide⟩)).step (.run _ ⟨0, by decide⟩)).step
    (.run _ ⟨0, by decide⟩)).step (.run _ ⟨0, by decide⟩)).step (.run _ ⟨0, by decide⟩)
  have h2 := ((h1.step (.run _ ⟨4, by decide⟩)).step (.run _ ⟨4, by decide⟩)).step
    (.run _ ⟨4, by decide⟩)
  exact ⟨_, hw, h2, rfl, rfl, rwlock_writer_alone_no_lost_update hw h2⟩

/-- With `NUM_WRITERS` writers, whatever the interleaving so far: while some thread has not
returned, some thread can move. A thread holding the lock always can, and when none holds it,
any thread that has not returned can. -/
theorem rwlock_deadlock_free
    (hw : (Finset.univ.filter fun t => isWriter t = true).card = NUM_WRITERS)
    (h : Reachable (· = RwState.init isWriter) Step s)
    (hlive : ∃ t, s.pc t ≠ .wdone ∧ s.pc t ≠ .rdone) : ∃ t, (rwStep s t).pc t ≠ s.pc t := by
  have hinv := Inv.reachable hw h
  obtain ⟨t, hret⟩ := hlive
  by_cases hheld : ∃ u, (s.pc u).wholds ∨ (s.pc u).rholds ≠ 0
  · obtain ⟨u, hu⟩ := hheld
    exact ⟨u, rwStep_pc_ne_of_holds hu⟩
  · have hwr : s.writer = false := by
      cases hwr : s.writer
      · rfl
      · obtain ⟨u, hu⟩ := hinv.writer.mp hwr
        exact absurd ⟨u, .inl hu⟩ hheld
    have hrd : s.readers = 0 := by
      rw [hinv.readers]
      exact Finset.sum_eq_zero fun u _ => not_not.mp fun hu => hheld ⟨u, .inr hu⟩
    exact ⟨t, rwStep_pc_ne hret (fun _ _ => ⟨hwr, hrd⟩) fun _ => hwr⟩

/-- `main`'s threads: writer 0 holds the write lock, so reader 4 waits in `rdlock`, and the
writer can move. -/
theorem rwlock_deadlock_free_main :
    ∃ s : RwState (Fin NUM_THREADS),
      (Finset.univ.filter fun t => mainIsWriter t = true).card = NUM_WRITERS ∧
      Reachable (· = RwState.init mainIsWriter) Step s ∧ s.writer = true ∧
      (rwStep s ⟨4, by decide⟩).pc ⟨4, by decide⟩ = s.pc ⟨4, by decide⟩ ∧
      (∃ t, s.pc t ≠ .wdone ∧ s.pc t ≠ .rdone) ∧ ∃ t, (rwStep s t).pc t ≠ s.pc t := by
  have hw : (Finset.univ.filter fun t => mainIsWriter t = true).card = NUM_WRITERS := by decide
  have h0 : Reachable (· = RwState.init mainIsWriter) Step (RwState.init mainIsWriter) := .init rfl
  have h1 := ((h0.step (.run _ ⟨0, by decide⟩)).step (.run _ ⟨0, by decide⟩)).step
    (.run _ ⟨4, by decide⟩)
  refine ⟨_, hw, h1, rfl, rfl, ?live, rwlock_deadlock_free hw h1 ?live⟩
  exact ⟨⟨4, by decide⟩, by decide, by decide⟩

end NetworkingHowto.Sync.RwLock
