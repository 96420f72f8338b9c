import NetworkingHowto.Reachable
import Mathlib.Logic.Function.Basic
import Mathlib.Algebra.Group.Int

/-! The ticket lock of `ticket-lock.c`, with its `uint16_t` counters and its `short` ticket. -/
namespace NetworkingHowto.Sync.TicketLock

def NUM_ITERATIONS : Nat := 1000

def TICKET_CYCLES_TO_SPIN : Nat := 100

/-- `const short ticket = atomic_fetch_add(&lock->next_ticket, 1U)`: the `uint16_t` value
converted to `short`, modulo `2^16` into `[-2^15, 2^15)` as GCC defines the conversion. -/
def toShort (v : Nat) : Int :=
  let w : Nat := v % 2^16
  if w < 2^15 then w else (w : Int) - 2^16

/-- Where a thread of `thread_func` stands; `i` is its loop counter. -/
inductive Pc where
  /-- The test `i < NUM_ITERATIONS`, then the `fetch_add` on `next_ticket`. -/
  | loop (i : Nat)
  /-- The spin test `now_serving != ticket && cycle_no < TICKET_CYCLES_TO_SPIN`. -/
  | spin (i : Nat) (ticket : Int) (cycle : Nat)
  /-- The test of the `sched_yield` loop, `now_serving != ticket`. -/
  | yield (i : Nat) (ticket : Int)
  /-- `TicketLock_acquire` returned: the load of `var++`. -/
  | critical (i : Nat)
  /-- The store of `var++` of the value `v` loaded. -/
  | incr (i v : Nat)
  /-- `TicketLock_release`: `fetch_add(&now_serving, 1)`. -/
  | release (i : Nat)
  /-- `thread_func` returned. -/
  | done
deriving DecidableEq, Repr

def Pc.inCs : Pc → Bool
  | .critical _ | .incr _ _ | .release _ => true
  | _ => false

structure LockState (ι : Type) where
  nextTicket : Nat
  nowServing : Nat
  var : Nat
  pc : ι → Pc

variable {ι : Type} [DecidableEq ι]

def LockState.setPc (s : LockState ι) (t : ι) (p : Pc) : LockState ι :=
  { s with pc := Function.update s.pc t p }

def threadStep (s : LockState ι) (t : ι) : LockState ι :=
  match s.pc t with
  | .loop i =>
    if i < NUM_ITERATIONS then
      { s with nextTicket := (s.nextTicket + 1) % 2^16,
               pc := Function.update s.pc t (.spin i (toShort s.nextTicket) 0) }
    else s.setPc t .done
  | .spin i ticket cycle =>
    if (s.nowServing : Int) ≠ ticket ∧ cycle < TICKET_CYCLES_TO_SPIN then
      s.setPc t (.spin i ticket (cycle + 1))
    else s.setPc t (.yield i ticket)
  | .yield i ticket =>
    if (s.nowServing : Int) ≠ ticket then s.setPc t (.yield i ticket) else s.setPc t (.critical i)
  | .critical i => s.setPc t (.incr i s.var)
  | .incr i v => { s with var := (v + 1) % 2^32, pc := Function.update s.pc t (.release i) }
  | .release i =>
    { s with nowServing := (s.nowServing + 1) % 2^16, pc := Function.update s.pc t (.loop (i + 1)) }
  | .done => s

inductive Step : LockState ι → LockState ι → Prop
  | run (s : LockState ι) (t : ι) : Step s (threadStep s t)

/-- After `TicketLock_init`, before the threads start. -/
def LockState.init : LockState ι := ⟨0, 0, 0, fun _ => .loop 0⟩

theorem toShort_lt (v : Nat) : toShort v < 2^15 := by
  unfold toShort; dsimp only; split_ifs <;> omega

theorem toShort_of_lt {v : Nat} (h : v < 2^15) : toShort v = v := by
  unfold toShort; rw [if_pos (by omega), Nat.mod_eq_of_lt (by omega)]

theorem toShort_mod (v : Nat) : toShort (v % 2^16) = toShort v := by
  simp only [toShort, Nat.mod_mod]

/-! ### Steps of one thread -/

section
variable {s : LockState ι} {t : ι}

theorem threadStep_loop {i : Nat} (hpc : s.pc t = .loop i) (hi : i < NUM_ITERATIONS) :
    threadStep s t =
      { s with nextTicket := (s.nextTicket + 1) % 2^16
               pc := Function.update s.pc t (.spin i (toShort s.nextTicket) 0) } := by
  simp only [threadStep, hpc, if_pos hi]

theorem threadStep_spin_served {i c : Nat} {tk : Int} (hpc : s.pc t = .spin i tk c)
    (hns : (s.nowServing : Int) = tk) : threadStep s t = s.setPc t (.yield i tk) := by
  simp only [threadStep, hpc, hns, ne_eq, not_true_eq_false, false_and, if_false]

theorem threadStep_yield_served {i : Nat} {tk : Int} (hpc : s.pc t = .yield i tk)
    (hns : (s.nowServing : Int) = tk) : threadStep s t = s.setPc t (.critical i) := by
  simp only [threadStep, hpc, hns, ne_eq, not_true_eq_false, if_false]

theorem threadStep_critical {i : Nat} (hpc : s.pc t = .critical i) :
    threadStep s t = s.setPc t (.incr i s.var) := by
  simp only [threadStep, hpc]

theorem threadStep_incr {i v : Nat} (hpc : s.pc t = .incr i v) :
    threadStep s t = { s with var := (v + 1) % 2^32, pc := Function.update s.pc t (.release i) } := by
  simp only [threadStep, hpc]

theorem threadStep_release {i : Nat} (hpc : s.pc t = .release i) :
    threadStep s t =
      { s with nowServing := (s.nowServing + 1) % 2^16
               pc := Function.update s.pc t (.loop (i + 1)) } := by
  simp only [threadStep, hpc]

theorem threadStep_enter {i : Nat} (hpc : s.pc t = .loop i) (hi : i < NUM_ITERATIONS)
    (htk : toShort s.nextTicket = s.nowServing) :
    threadStep (threadStep (threadStep s t) t) t =
      { s with nextTicket := (s.nextTicket + 1) % 2^16
               pc := Function.update s.pc t (.critical i) } := by
  simp [threadStep, hpc, hi, LockState.setPc, htk]

theorem threadStep_spin_enter {i c : Nat} {tk : Int} (hpc : s.pc t = .spin i tk c)
    (hns : (s.nowServing : Int) = tk) : threadStep (threadStep s t) t = s.setPc t (.critical i) := by
  simp [threadStep, hpc, hns, LockState.setPc]

theorem threadStep_round {i : Nat} (hpc : s.pc t = .loop i) (hi : i < NUM_ITERATIONS)
    (hfree : s.nextTicket = s.nowServing) (hlt : s.nowServing < 2^15) :
    threadStep (threadStep (threadStep (threadStep (threadStep (threadStep s t) t) t) t) t) t =
      { s with nextTicket := (s.nextTicket + 1) % 2^16
               nowServing := (s.nowServing + 1) % 2^16
               var := (s.var + 1) % 2^32
               pc := Function.update s.pc t (.loop (i + 1)) } := by
  rw [threadStep_enter hpc hi (by rw [hfree, toShort_of_lt hlt])]
  simp [threadStep, LockState.setPc]

end

theorem reachable_round {init : LockState ι → Prop} {s : LockState ι}
    (hs : Reachable init Step s) (t : ι) :
    Reachable init Step
      (threadStep (threadStep (threadStep (threadStep (threadStep (threadStep s t) t) t) t) t) t) :=
  (((((hs.step (.run s t)).step (.run _ t)).step (.run _ t)).step (.run _ t)).step
    (.run _ t)).step (.run _ t)

/-! ### Past `2^15` tickets: the exit tests never hold again -/

/-- Where a thread may stand once `now_serving` is `2^15`: outside the critical section, with
any ticket it holds a `short`, below `2^15`. -/
def StuckPc : Pc → Prop
  | .loop _ | .done => True
  | .spin _ tk _ | .yield _ tk => tk < 2^15
  | .critical _ | .incr _ _ | .release _ => False

/-- `now_serving` is `2^15`, which no `short` ticket equals as an `int`. -/
structure Stuck (s : LockState ι) : Prop where
  serving : s.nowServing = 2^15
  pcs : ∀ t, StuckPc (s.pc t)

theorem StuckPc.inCs {p : Pc} (h : StuckPc p) : p.inCs = false := by
  cases p <;> simp_all [StuckPc, Pc.inCs]

theorem Stuck.update {s : LockState ι} (h : Stuck s) {t : ι} {p : Pc} (hp : StuckPc p) (j : ι) :
    StuckPc (Function.update s.pc t p j) := by
  rw [Function.update_apply]
  split_ifs
  exacts [hp, h.pcs j]

theorem Stuck.step {s : LockState ι} (h : Stuck s) (t : ι) : Stuck (threadStep s t) := by
  have hne : ∀ tk : Int, tk < 2^15 → (s.nowServing : Int) ≠ tk := fun tk htk => by
    rw [h.serving]; push_cast; omega
  have hpc := h.pcs t
  cases hp : s.pc t with
  | loop i =>
    simp only [threadStep, hp]
    split_ifs
    exacts [⟨h.serving, h.update (toShort_lt _)⟩, ⟨h.serving, h.update trivial⟩]
  | spin i tk c =>
    rw [hp] at hpc
    simp only [threadStep, hp]
    split_ifs
    exacts [⟨h.serving, h.update hpc⟩, ⟨h.serving, h.update hpc⟩]
  | yield i tk =>
    rw [hp] at hpc
    simp only [threadStep, hp, if_pos (hne tk hpc)]
    exact ⟨h.serving, h.update hpc⟩
  | critical _ | incr _ _ | release _ => rw [hp] at hpc; exact hpc.elim
  | done => simpa only [threadStep, hp] using h

/-- `m` whole rounds done by 33 threads in turn, thread `j` taking rounds `1000 j` to
`1000 j + 999`. -/
def rounds (m : Nat) : LockState (Fin 33) :=
  ⟨m, m, m, fun j => .loop (min NUM_ITERATIONS (m - NUM_ITERATIONS * j.val))⟩

theorem reachable_rounds : ∀ m, m ≤ 2^15 → Reachable (· = LockState.init) Step (rounds m)
  | 0, _ => .init (by simp only [rounds, Nat.zero_sub, Nat.min_zero]; rfl)
  | m + 1, hm => by
    have hj : m / NUM_ITERATIONS < 33 := by unfold NUM_ITERATIONS; omega
    have hpc : (rounds m).pc ⟨_, hj⟩ = .loop (m % NUM_ITERATIONS) := by
      simp only [rounds, NUM_ITERATIONS]; congr 1; omega
    have h := reachable_round (reachable_rounds m (by omega)) ⟨_, hj⟩
    rw [threadStep_round hpc (Nat.mod_lt _ (by decide)) rfl (by show m < 2^15; omega)] at h
    convert h using 1
    simp only [rounds, LockState.mk.injEq]
    refine ⟨by omega, by omega, by omega, funext fun j => ?_⟩
    rw [Function.update_apply]
    split_ifs with hj'
    · subst hj'; simp only [NUM_ITERATIONS]; congr 1; omega
    · have : j.val ≠ m / NUM_ITERATIONS := fun h => hj' (Fin.ext h)
      simp only [NUM_ITERATIONS] at this ⊢; congr 1; omega

/-! ### Past `2^16` threads: two holders of ticket 0 -/

/-- Thread 0 holds the lock with ticket 0, and threads `1 … k` have drawn tickets `1 … k`
modulo `2^16`. -/
def drawn (k : Nat) : LockState (Fin (2^16 + 1)) :=
  ⟨(k + 1) % 2^16, 0, 0, fun j =>
    if j.val = 0 then .critical 0 else if j.val ≤ k then .spin 0 (toShort j.val) 0 else .loop 0⟩

theorem reachable_drawn : ∀ k, k ≤ 2^16 → Reachable (· = LockState.init) Step (drawn k)
  | 0, _ => by
    have h0 : Reachable (· = LockState.init) Step (LockState.init : LockState (Fin (2^16 + 1))) :=
      .init rfl
    have hpc : (LockState.init : LockState (Fin (2^16 + 1))).pc 0 = .loop 0 := rfl
    have h := ((h0.step (.run _ 0)).step (.run _ 0)).step (.run _ 0)
    rw [threadStep_enter hpc (by decide) (toShort_of_lt (by decide))] at h
    convert h using 1
    simp only [drawn, LockState.init, LockState.mk.injEq]
    refine ⟨trivial, trivial, trivial, funext fun j => ?_⟩
    by_cases hj : j = 0
    · subst hj; simp
    · have : j.val ≠ 0 := fun h => hj (Fin.ext h)
      simp [hj, this, LockState.init]
  | k + 1, hk => by
    have h := (reachable_drawn k (by omega)).step (.run _ ⟨k + 1, by omega⟩)
    have hpc : (drawn k).pc ⟨k + 1, by omega⟩ = .loop 0 := by simp [drawn]
    rw [threadStep_loop hpc (by decide)] at h
    convert h using 1
    simp only [drawn, LockState.mk.injEq]
    refine ⟨by omega, trivial, trivial, funext fun j => ?_⟩
    by_cases hj : j = ⟨k + 1, by omega⟩
    · subst hj
      simp only [drawn, Function.update_same]
      rw [if_neg (by omega), if_pos le_rfl, toShort_mod]
    · have : j.val ≠ k + 1 := fun h => hj (Fin.ext h)
      simp only [Function.update_noteq hj, drawn]
      split_ifs <;> first | rfl | omega

/-- The lock breaks once tickets leave the range of a `uint16_t` or of a `short`. With
`2^16 + 1` threads, thread 0 holds the lock with ticket 0 while the others draw tickets
`1, …, 2^16 - 1` and then `0` again: the last finds `now_serving = 0` equal to its ticket and
enters too. With 33 threads of `NUM_ITERATIONS` rounds, after `2^15` whole rounds (`var` and
`now_serving` both `2^15`) thread 32 draws ticket `2^15`, equal to `now_serving` as a
`uint16_t` but stored as the `short` `-2^15`, which the `int` `2^15` never equals: from then
on no thread passes an exit test, so the `2^15 + 1`-th acquirer never gets in. -/
theorem ticket_lock_fails_past_short_range :
    (∃ s : LockState (Fin (2^16 + 1)), Reachable (· = LockState.init) Step s ∧
      (s.pc 0).inCs ∧ (s.pc (Fin.last (2^16))).inCs) ∧
    (∃ s : LockState (Fin 33), Reachable (· = LockState.init) Step s ∧
      s.var = 2^15 ∧ s.nowServing = 2^15 ∧ s.pc 32 = .spin 768 (toShort (2^15)) 0 ∧
      toShort (2^15) ≠ (s.nowServing : Int) ∧
      ∀ s', Reachable (· = s) Step s' → ∀ t, (s'.pc t).inCs = false) := by
  constructor
  · have hpc : (drawn (2^16)).pc (Fin.last _) = .spin 0 (toShort (2^16)) 0 := by simp [drawn]
    have h := ((reachable_drawn (2^16) le_rfl).step (.run _ (Fin.last _))).step (.run _ (Fin.last _))
    rw [threadStep_spin_enter hpc (by decide)] at h
    refine ⟨_, h, ?_, by simp [LockState.setPc, Pc.inCs]⟩
    show (Function.update (drawn (2^16)).pc (Fin.last _) (.critical 0) 0).inCs = true
    rw [Function.update_noteq (show (0 : Fin (2^16 + 1)) ≠ Fin.last _ by decide)]
    rfl
  · have hpc : (rounds (2^15)).pc 32 = .loop 768 := rfl
    have hstuck : Stuck (threadStep (rounds (2^15)) 32) :=
      Stuck.step (show Stuck (rounds (2^15)) from ⟨rfl, fun _ => trivial⟩) 32
    have hstep := threadStep_loop hpc (by decide)
    refine ⟨_, (reachable_rounds _ le_rfl).step (.run _ 32), by rw [hstep]; rfl, hstuck.serving,
      by rw [hstep]; rfl, by rw [hstuck.serving]; decide,
      fun s' hs' t => ?_⟩
    have hinv : Stuck s' := hs'.invariant (fun _ h => h ▸ hstuck) fun _ _ h hst => by
      cases hst; exact h.step _
    exact (hinv.pcs t).inCs

end NetworkingHowto.Sync.TicketLock
