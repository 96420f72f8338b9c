import NetworkingHowto.Sync.TicketLock
import Mathlib.Algebra.Order.BigOperators.Group.Finset
import Mathlib.Data.Int.Interval
import Mathlib.Data.Fintype.Card

/-! The ticket lock of `ticket-lock.c` while the threads draw fewer than `2^15` tickets. -/
namespace NetworkingHowto.Sync.TicketLock

def Pc.drawn : Pc → Nat
  | .loop i => i
  | .spin i _ _ | .yield i _ | .critical i | .incr i _ | .release i => i + 1
  | .done => NUM_ITERATIONS

def Pc.released : Pc → Nat
  | .loop i | .spin i _ _ | .yield i _ | .critical i | .incr i _ | .release i => i
  | .done => NUM_ITERATIONS

def Pc.count : Pc → Nat
  | .loop i | .spin i _ _ | .yield i _ | .critical i | .incr i _ => i
  | .release i => i + 1
  | .done => NUM_ITERATIONS

def Pc.Bounded : Pc → Prop
  | .loop i => i ≤ NUM_ITERATIONS
  | .spin i _ _ | .yield i _ | .critical i | .incr i _ | .release i => i < NUM_ITERATIONS
  | .done => True

/-- The ticket a thread holds while `now_serving` is `ns`: the one it waits with, or `ns` between
acquire and release. -/
def Pc.held (ns : Nat) : Pc → Option Int
  | .spin _ tk _ | .yield _ tk => some tk
  | .critical _ | .incr _ _ | .release _ => some ns
  | .loop _ | .done => none

theorem Pc.drawn_eq (ns : Nat) (p : Pc) :
    p.drawn = p.released + if (p.held ns).isSome then 1 else 0 := by
  cases p <;> rfl

theorem Pc.drawn_le {p : Pc} (hb : p.Bounded) : p.drawn ≤ NUM_ITERATIONS := by
  cases p <;> simp only [Pc.Bounded, Pc.drawn] at hb ⊢ <;> omega

theorem Pc.count_le {p : Pc} (hb : p.Bounded) : p.count ≤ NUM_ITERATIONS := by
  cases p <;> simp only [Pc.Bounded, Pc.count] at hb ⊢ <;> omega

theorem Pc.held_of_inCs {p : Pc} (h : p.inCs) (ns : Nat) : p.held ns = some (ns : Int) := by
  cases p <;> simp_all [Pc.inCs, Pc.held]

theorem Pc.held_of_not_inCs {p : Pc} (h : p.inCs = false) (a b : Nat) : p.held a = p.held b := by
  cases p <;> simp_all [Pc.inCs, Pc.held]

variable {ι : Type} [DecidableEq ι] [Fintype ι]

omit [DecidableEq ι] in
theorem sum_lt_card_mul {f : ι → Nat} (hf : ∀ u, f u ≤ NUM_ITERATIONS) {t : ι}
    (ht : f t < NUM_ITERATIONS) : ∑ u, f u < Fintype.card ι * NUM_ITERATIONS := by
  calc ∑ u, f u < ∑ _u : ι, NUM_ITERATIONS :=
        Finset.sum_lt_sum (fun u _ => hf u) ⟨t, Finset.mem_univ t, ht⟩
    _ = Fintype.card ι * NUM_ITERATIONS := by simp

/-- The invariant of every run below the short range: loop counters within bounds,
`next_ticket`, `now_serving` and `var` count the draws, releases and increments, the tickets
held lie in `[now_serving, next_ticket)` and are distinct, and a thread about to store has
loaded the current `var`. -/
structure TicketInv (s : LockState ι) : Prop where
  bounded : ∀ t, (s.pc t).Bounded
  next : s.nextTicket = ∑ t, (s.pc t).drawn
  serving : s.nowServing = ∑ t, (s.pc t).released
  range : ∀ t tk, (s.pc t).held s.nowServing = some tk → s.nowServing ≤ tk ∧ tk < s.nextTicket
  distinct : ∀ t u tk, (s.pc t).held s.nowServing = some tk →
    (s.pc u).held s.nowServing = some tk → t = u
  loaded : ∀ t i v, s.pc t = .incr i v → v = s.var
  count : s.var = ∑ t, (s.pc t).count

variable {s : LockState ι}

omit [DecidableEq ι] in
theorem TicketInv.init : TicketInv (LockState.init : LockState ι) where
  bounded _ := Nat.zero_le _
  next := by simp [LockState.init, Pc.drawn]
  serving := by simp [LockState.init, Pc.released]
  range _ _ h := by cases h
  distinct _ _ _ h := by cases h
  loaded _ _ _ h := by cases h
  count := by simp [LockState.init, Pc.count]

omit [DecidableEq ι] in
theorem TicketInv.next_le (h : TicketInv s) : s.nextTicket ≤ Fintype.card ι * NUM_ITERATIONS := by
  rw [h.next]
  calc ∑ u, (s.pc u).drawn ≤ ∑ _u : ι, NUM_ITERATIONS :=
        Finset.sum_le_sum fun u _ => Pc.drawn_le (h.bounded u)
    _ = Fintype.card ι * NUM_ITERATIONS := by simp

theorem TicketInv.update (h : TicketInv s) {t : ι} {p : Pc} {nt ns v : Nat} (hb : p.Bounded)
    (hnext : nt + (s.pc t).drawn = s.nextTicket + p.drawn)
    (hserv : ns + (s.pc t).released = s.nowServing + p.released)
    (hcount : v + (s.pc t).count = s.var + p.count)
    (hheld : ∀ u, u ≠ t → (s.pc u).held ns = (s.pc u).held s.nowServing)
    (hrange_t : ∀ tk, p.held ns = some tk → ns ≤ tk ∧ tk < nt)
    (hrange : ∀ u tk, u ≠ t → (s.pc u).held s.nowServing = some tk → ns ≤ tk ∧ tk < nt)
    (hdistinct : ∀ tk, p.held ns = some tk → ∀ u, u ≠ t → (s.pc u).held s.nowServing ≠ some tk)
    (hloaded_t : ∀ i w, p = .incr i w → w = v)
    (hloaded : v = s.var ∨ ∀ u i w, u ≠ t → s.pc u ≠ .incr i w) :
    TicketInv ⟨nt, ns, v, Function.update s.pc t p⟩ := by
  have hd := sum_update_add Pc.drawn s.pc (Finset.mem_univ t) p
  have hr := sum_update_add Pc.released s.pc (Finset.mem_univ t) p
  have hc := sum_update_add Pc.count s.pc (Finset.mem_univ t) p
  have hnext' := h.next
  have hserv' := h.serving
  have hcount' := h.count
  refine ⟨(Function.forall_update_iff _ fun _ (q : Pc) => q.Bounded).mpr ⟨hb, fun u _ => h.bounded u⟩,
    show nt = ∑ u, (Function.update s.pc t p u).drawn by omega,
    show ns = ∑ u, (Function.update s.pc t p u).released by omega,
    (Function.forall_update_iff _ fun _ (q : Pc) => ∀ tk, q.held ns = some tk → ns ≤ tk ∧ tk < nt).mpr
      ⟨hrange_t, fun u hut tk hu => hrange u tk hut (hheld u hut ▸ hu)⟩,
    fun u w tk hu hw => ?_,
    (Function.forall_update_iff _ fun _ (q : Pc) => ∀ i w, q = .incr i w → w = v).mpr
      ⟨hloaded_t, fun u hut i w hu => hloaded.elim (fun hv => hv ▸ h.loaded u i w hu)
        fun hno => absurd hu (hno u i w hut)⟩,
    show v = ∑ u, (Function.update s.pc t p u).count by omega⟩
  -- two holders of one ticket: both `t`, or both other threads
  dsimp only at hu hw
  rcases eq_or_ne u t with rfl | hut <;> rcases eq_or_ne w u with rfl | hwu
  · rfl
  · rw [Function.update_same] at hu
    rw [Function.update_noteq hwu, hheld w hwu] at hw
    exact absurd hw (hdistinct tk hu w hwu)
  · rfl
  · rw [Function.update_noteq hut, hheld u hut] at hu
    rcases eq_or_ne w t with rfl | hwt
    · rw [Function.update_same] at hw
      exact absurd hu (hdistinct tk hw u hut)
    · rw [Function.update_noteq hwt, hheld w hwt] at hw
      exact h.distinct u w tk hu hw

theorem TicketInv.move (h : TicketInv s) {t : ι} {p : Pc} (hb : p.Bounded)
    (hd : p.drawn = (s.pc t).drawn) (hr : p.released = (s.pc t).released)
    (hc : p.count = (s.pc t).count) (hheld : p.held s.nowServing = (s.pc t).held s.nowServing)
    (hload : ∀ i w, p = .incr i w → w = s.var) : TicketInv (s.setPc t p) :=
  h.update hb (by omega) (by omega) (by omega) (fun _ _ => rfl)
    (fun tk hp => h.range t tk (hheld ▸ hp)) (fun u tk _ hu => h.range u tk hu)
    (fun tk hp u hut hu => hut (h.distinct u t tk hu (hheld ▸ hp))) hload (.inl rfl)

theorem TicketInv.draw (hn : Fintype.card ι * NUM_ITERATIONS < 2^15) (h : TicketInv s) {t : ι}
    {i : Nat} (hpc : s.pc t = .loop i) (hi : i < NUM_ITERATIONS) :
    TicketInv { s with nextTicket := (s.nextTicket + 1) % 2^16,
                       pc := Function.update s.pc t (.spin i (toShort s.nextTicket) 0) } := by
  have hlt : s.nextTicket < Fintype.card ι * NUM_ITERATIONS := by
    rw [h.next]
    exact sum_lt_card_mul (fun u => Pc.drawn_le (h.bounded u)) (show (s.pc t).drawn < _ by rw [hpc]; exact hi)
  have hle : s.nowServing ≤ s.nextTicket := by
    rw [h.next, h.serving]
    exact Finset.sum_le_sum fun u _ => by rw [Pc.drawn_eq s.nowServing]; omega
  rw [toShort_of_lt (by omega), Nat.mod_eq_of_lt (by omega)]
  refine h.update hi (by rw [hpc]; simp only [Pc.drawn]; omega) (by rw [hpc]; rfl) (by rw [hpc]; rfl)
    (fun _ _ => rfl) (fun tk htk => ?_) (fun u tk _ hu => ?_) (fun tk htk u _ hu => ?_) nofun (.inl rfl)
  · cases htk; exact ⟨by exact_mod_cast hle, by omega⟩
  · have := h.range u tk hu; omega
  · cases htk; have := h.range u _ hu; omega

theorem TicketInv.incr (hn : Fintype.card ι * NUM_ITERATIONS < 2^15) (h : TicketInv s) {t : ι}
    {i v : Nat} (hpc : s.pc t = .incr i v) :
    TicketInv { s with var := (v + 1) % 2^32, pc := Function.update s.pc t (.release i) } := by
  have hv := h.loaded t i v hpc
  have hlt : s.var < Fintype.card ι * NUM_ITERATIONS := by
    rw [h.count]
    have hb := h.bounded t
    rw [hpc] at hb
    exact sum_lt_card_mul (fun u => Pc.count_le (h.bounded u)) (show (s.pc t).count < _ by rw [hpc]; exact hb)
  have hheld := (s.pc t).held_of_inCs (by rw [hpc]; rfl) s.nowServing
  rw [Nat.mod_eq_of_lt (by omega)]
  refine h.update (by have := h.bounded t; rwa [hpc] at this) (by rw [hpc]; rfl) (by rw [hpc]; rfl)
    (by rw [hpc, hv]; simp only [Pc.count]; omega) (fun _ _ => rfl) (fun tk hp => h.range t tk (hheld ▸ hp))
    (fun u tk _ hu => h.range u tk hu) (fun tk hp u hut hu => hut (h.distinct u t tk hu (hheld ▸ hp)))
    nofun (.inr fun u i' w hut hu => hut (h.distinct u t _ ?_ hheld))
  rw [hu]; rfl

theorem TicketInv.release (hn : Fintype.card ι * NUM_ITERATIONS < 2^15) (h : TicketInv s) {t : ι}
    {i : Nat} (hpc : s.pc t = .release i) :
    TicketInv { s with nowServing := (s.nowServing + 1) % 2^16,
                       pc := Function.update s.pc t (.loop (i + 1)) } := by
  have hheld := (s.pc t).held_of_inCs (by rw [hpc]; rfl) s.nowServing
  have hlt := (h.range t _ hheld).2
  have hnext := h.next_le
  have hb := h.bounded t
  rw [hpc] at hb
  have hother : ∀ u, u ≠ t → (s.pc u).inCs = false := fun u hut => by
    by_contra hu
    exact hut (h.distinct u t _ ((s.pc u).held_of_inCs (by simpa using hu) _) hheld)
  rw [Nat.mod_eq_of_lt (by omega)]
  refine h.update (show i + 1 ≤ NUM_ITERATIONS from hb) (by rw [hpc]; rfl)
    (by rw [hpc]; simp only [Pc.released]; omega) (by rw [hpc]; rfl) (fun u hut => Pc.held_of_not_inCs (hother u hut) _ _) nofun
    (fun u tk hut hu => ?_) nofun nofun (.inl rfl)
  have hne : tk ≠ s.nowServing := fun he => hut (h.distinct u t tk hu (he ▸ hheld))
  have := h.range u tk hu
  omega

theorem TicketInv.step (hn : Fintype.card ι * NUM_ITERATIONS < 2^15) (h : TicketInv s) (t : ι) :
    TicketInv (threadStep s t) := by
  have hb := h.bounded t
  cases hpc : s.pc t with
  | loop i =>
    rw [hpc] at hb
    simp only [threadStep, hpc]
    split_ifs with hi
    · exact h.draw hn hpc hi
    · have hN : i = NUM_ITERATIONS := by simp only [Pc.Bounded] at hb; omega
      exact h.move trivial (by rw [hpc, hN]; rfl) (by rw [hpc, hN]; rfl) (by rw [hpc, hN]; rfl)
        (by rw [hpc]; rfl) nofun
  | spin i tk c =>
    rw [hpc] at hb
    simp only [threadStep, hpc]
    split_ifs <;> exact h.move hb (by rw [hpc]; rfl) (by rw [hpc]; rfl) (by rw [hpc]; rfl)
      (by rw [hpc]; rfl) nofun
  | yield i tk =>
    rw [hpc] at hb
    simp only [threadStep, hpc]
    split_ifs with hns
    · exact h.move hb (by rw [hpc]) (by rw [hpc]) (by rw [hpc]) (by rw [hpc]) nofun
    · exact h.move hb (by rw [hpc]; rfl) (by rw [hpc]; rfl) (by rw [hpc]; rfl)
        (by rw [hpc, ← not_not.mp hns]; rfl) nofun
  | critical i =>
    rw [hpc] at hb
    simp only [threadStep, hpc]
    exact h.move hb (by rw [hpc]; rfl) (by rw [hpc]; rfl) (by rw [hpc]; rfl) (by rw [hpc]; rfl)
      fun _ _ hp => by cases hp; rfl
  | incr i v => simp only [threadStep, hpc]; exact h.incr hn hpc
  | release i => simp only [threadStep, hpc]; exact h.release hn hpc
  | done => simpa only [threadStep, hpc] using h

theorem TicketInv.reachable (hn : Fintype.card ι * NUM_ITERATIONS < 2^15)
    (h : Reachable (· = LockState.init) Step s) : TicketInv s :=
  h.invariant (fun _ hs => hs ▸ TicketInv.init) fun _ _ h hst => by cases hst; exact h.step hn _

omit [DecidableEq ι] in
theorem TicketInv.exists_serving (h : TicketInv s)
    (hw : ∃ t, ((s.pc t).held s.nowServing).isSome) :
    ∃ t, (s.pc t).held s.nowServing = some (s.nowServing : Int) := by
  set H := Finset.univ.filter fun t => ((s.pc t).held s.nowServing).isSome with hH
  have hcard : s.nextTicket = s.nowServing + H.card := by
    rw [h.next, h.serving, Finset.card_filter, ← Finset.sum_add_distrib]
    exact Finset.sum_congr rfl fun u _ => Pc.drawn_eq _ _
  have hsome : ∀ t ∈ H, (s.pc t).held s.nowServing =
      some (((s.pc t).held s.nowServing).getD 0) := fun t ht => by
    obtain ⟨a, ha⟩ := Option.isSome_iff_exists.mp (Finset.mem_filter.mp ht).2
    rw [ha, Option.getD_some]
  have hpos : 0 < H.card := by
    obtain ⟨t, ht⟩ := hw
    exact Finset.card_pos.mpr ⟨t, Finset.mem_filter.mpr ⟨Finset.mem_univ t, ht⟩⟩
  obtain ⟨t, ht, he⟩ := Finset.surj_on_of_inj_on_of_card_le
    (s := H) (t := Finset.Ico (s.nowServing : Int) s.nextTicket)
    (fun t _ => ((s.pc t).held s.nowServing).getD 0)
    (fun t ht => Finset.mem_Ico.mpr (h.range t _ (hsome t ht)))
    (fun t u ht hu he => h.distinct t u _ (hsome t ht) ((hsome u hu).trans (congrArg some he.symm)))
    (by rw [Int.card_Ico]; omega) s.nowServing (Finset.mem_Ico.mpr ⟨le_rfl, by omega⟩)
  exact ⟨t, (hsome t ht).trans (congrArg some he.symm)⟩

/-- The ticket lock below the short range, `NUM_THREADS * NUM_ITERATIONS < 2^15`: in every
reachable state at most one thread is between acquire and release, `var` is the number of
increments stored, so none is lost, once every thread has returned `var` is
`NUM_THREADS * NUM_ITERATIONS`, and when no thread is inside but one waits, some thread enters
within two of its own steps. -/
theorem ticket_lock_safe_below_short_range (hn : Fintype.card ι * NUM_ITERATIONS < 2^15)
    (h : Reachable (· = LockState.init) Step s) :
    (∀ t u, (s.pc t).inCs → (s.pc u).inCs → t = u) ∧
    s.var = ∑ t, (s.pc t).count ∧
    ((∀ t, s.pc t = .done) → s.var = Fintype.card ι * NUM_ITERATIONS) ∧
    ((∀ t, (s.pc t).inCs = false) → (∃ t i tk c, s.pc t = .spin i tk c ∨ s.pc t = .yield i tk) →
      ∃ t i, threadStep s t = s.setPc t (.critical i) ∨
        threadStep (threadStep s t) t = s.setPc t (.critical i)) := by
  have hinv := TicketInv.reachable hn h
  refine ⟨fun t u ht hu => hinv.distinct t u _ ((s.pc t).held_of_inCs ht _)
      ((s.pc u).held_of_inCs hu _), hinv.count, fun hdone => ?_, fun hfree hwait => ?_⟩
  · rw [hinv.count, Finset.sum_congr rfl fun t _ => congrArg Pc.count (hdone t)]
    simp [Pc.count]
  · obtain ⟨w, i, tk, c, hw⟩ := hwait
    obtain ⟨t, ht⟩ := hinv.exists_serving ⟨w, by rcases hw with hw | hw <;> rw [hw] <;> rfl⟩
    have hcs := hfree t
    cases hpc : s.pc t with
    | spin i tk c =>
      rw [hpc] at ht
      exact ⟨t, i, .inr (threadStep_spin_enter hpc (Option.some.inj ht).symm)⟩
    | yield i tk =>
      rw [hpc] at ht
      exact ⟨t, i, .inl (threadStep_yield_served hpc (Option.some.inj ht).symm)⟩
    | critical _ | incr _ _ | release _ => rw [hpc] at hcs; cases hcs
    | loop _ | done => rw [hpc] at ht; cases ht

def NUM_THREADS : Nat := 8

/-- `main`'s eight threads: thread 0 draws ticket 0 and thread 1 ticket 1; thread 0 enters,
stores its increment and releases, and thread 1, spinning on its ticket, is next in. -/
theorem ticket_lock_safe_below_short_range_main :
    ∃ s : LockState (Fin NUM_THREADS),
      Fintype.card (Fin NUM_THREADS) * NUM_ITERATIONS < 2^15 ∧
      Reachable (· = LockState.init) Step s ∧ s.pc ⟨1, by decide⟩ = .spin 0 1 0 ∧ s.var = 1 ∧
      (∀ t, (s.pc t).inCs = false) ∧
      ((∀ t u, (s.pc t).inCs → (s.pc u).inCs → t = u) ∧
        s.var = ∑ t, (s.pc t).count ∧
        ((∀ t, s.pc t = .done) → s.var = Fintype.card (Fin NUM_THREADS) * NUM_ITERATIONS) ∧
        ((∀ t, (s.pc t).inCs = false) → (∃ t i tk c, s.pc t = .spin i tk c ∨ s.pc t = .yield i tk) →
          ∃ t i, threadStep s t = s.setPc t (.critical i) ∨
            threadStep (threadStep s t) t = s.setPc t (.critical i))) := by
  have hn : Fintype.card (Fin NUM_THREADS) * NUM_ITERATIONS < 2^15 := by
    rw [Fintype.card_fin]; decide
  have h0 : Reachable (· = LockState.init) Step (LockState.init : LockState (Fin NUM_THREADS)) :=
    .init rfl
  have h := ((((((h0.step (.run _ ⟨0, by decide⟩)).step (.run _ ⟨1, by decide⟩)).step
    (.run _ ⟨0, by decide⟩)).step (.run _ ⟨0, by decide⟩)).step (.run _ ⟨0, by decide⟩)).step
    (.run _ ⟨0, by decide⟩)).step (.run _ ⟨0, by decide⟩)
  exact ⟨_, hn, h, rfl, rfl, by decide, ticket_lock_safe_below_short_range hn h⟩

end NetworkingHowto.Sync.TicketLock
