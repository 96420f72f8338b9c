import NetworkingHowto.Sync.Futex

/-! The futex mutex under the kernel's own `FUTEX_WAKE`, which wakes a sleeper whenever there is
one: no wakeup is lost. -/
namespace NetworkingHowto.Sync.Futex

variable {ι : Type*} [DecidableEq ι]

/-- Every interleaving under the kernel's `FUTEX_WAKE`: a thread at its wake steps on by itself
only when nobody sleeps. -/
inductive KernelStep (enc : MutexEncoding) : MutexState ι → MutexState ι → Prop
  | run (s : MutexState ι) (i : ι) (hi : s.pc i = .wake → ∀ j, s.pc j ≠ .sleeping) :
      KernelStep enc s (threadStep enc s i)
  | wakeOne (s : MutexState ι) (i j : ι) (hi : s.pc i = .wake) (hj : s.pc j = .sleeping) :
      KernelStep enc s ((s.setPc i .idle).setPc j .xchg)
  | spurious (s : MutexState ι) (j : ι) (hj : s.pc j = .sleeping) :
      KernelStep enc s (s.setPc j .xchg)

variable {enc : MutexEncoding} {s : MutexState ι}

theorem KernelStep.step {t : MutexState ι} (h : KernelStep enc s t) : Step enc s t := by
  cases h with
  | run i _ => exact .run s i
  | wakeOne i j hi hj => exact .wakeOne s i j hi hj
  | spurious j hj => exact .spurious s j hj

/-- Someone will wake a sleeper: the word is `M_LOCKD_WQ`, or a thread is at the store or the
wake of `unlock`, or at an exchange. -/
def Waking (enc : MutexEncoding) (s : MutexState ι) : Prop :=
  s.mutex = enc.LOCKD_WQ ∨ ∃ t, s.pc t = .store ∨ s.pc t = .wake ∨ s.pc t = .xchg

def NoLostWakeup (enc : MutexEncoding) (s : MutexState ι) : Prop :=
  (∃ j, s.pc j = .sleeping) → Waking enc s

omit [DecidableEq ι] in
theorem NoLostWakeup.init (hs : Init enc s) : NoLostWakeup enc s := fun ⟨j, hj⟩ => by
  rw [hs.2 j] at hj
  cases hj

theorem NoLostWakeup.move (h : NoLostWakeup enc s) {i : ι} {p : Pc} {m : Int}
    (hi : s.pc i = .idle ∨ s.pc i = .cas ∨ s.pc i = .wait ∨ s.pc i = .critical ∨ s.pc i = .sub)
    (hp : p ≠ .sleeping) (hm : s.mutex = enc.LOCKD_WQ → m = enc.LOCKD_WQ) :
    NoLostWakeup enc ⟨m, Function.update s.pc i p⟩ := fun ⟨j, hj⟩ => by
  have hji : j ≠ i := fun hji => hp (by rw [hji] at hj; simpa using hj)
  rcases h ⟨j, by simpa [hji] using hj⟩ with hw | ⟨u, hu⟩
  · exact .inl (hm hw)
  · have hui : u ≠ i := by
      rintro rfl
      rcases hi with hi | hi | hi | hi | hi <;> rw [hi] at hu <;> simp at hu
    exact .inr ⟨u, by simpa [hui] using hu⟩

omit [DecidableEq ι] in
theorem NoLostWakeup.of_waking {t : MutexState ι} (h : Waking enc t) : NoLostWakeup enc t :=
  fun _ => h

theorem waking_update {m : Int} {i : ι} {p : Pc} (hp : p = .store ∨ p = .wake ∨ p = .xchg) :
    Waking enc ⟨m, Function.update s.pc i p⟩ :=
  .inr ⟨i, by simpa using hp⟩

theorem NoLostWakeup.threadStep (hv : enc.Valid) (h : NoLostWakeup enc s) {i : ι}
    (hi : s.pc i = .wake → ∀ j, s.pc j ≠ .sleeping) : NoLostWakeup enc (threadStep enc s i) := by
  cases hpc : s.pc i <;> simp only [Futex.threadStep, hpc]
  case idle => exact h.move (.inl hpc) nofun fun hm => hm
  case cas =>
    split_ifs with hm
    · exact h.move (.inr (.inl hpc)) nofun fun hw => absurd (hm.symm.trans hw) hv.wq_ne.symm
    all_goals exact h.move (.inr (.inl hpc)) nofun fun hw => hw
  case xchg => exact .of_waking (.inl rfl)
  case wait =>
    split_ifs with hm
    · exact h.move (.inr (.inr (.inl hpc))) nofun fun hw => hw
    · exact .of_waking (.inl (not_not.mp hm))
  case sleeping => exact h
  case critical => exact h.move (.inr (.inr (.inr (.inl hpc)))) nofun fun hw => hw
  case sub =>
    split_ifs with hm
    · exact .of_waking (waking_update (.inl rfl))
    · exact h.move (.inr (.inr (.inr (.inr hpc)))) nofun
        fun hw => absurd ((not_not.mp hm).symm.trans hw) hv.wq_ne_lockd.symm
  case store => exact .of_waking (waking_update (.inr (.inl rfl)))
  case wake =>
    rintro ⟨j, hj⟩
    by_cases hji : j = i
    · subst hji; simp at hj
    · exact absurd (by simpa [hji] using hj) (hi hpc j)

theorem NoLostWakeup.step (hv : enc.Valid) (h : NoLostWakeup enc s) {t : MutexState ι}
    (hs : KernelStep enc s t) : NoLostWakeup enc t := by
  cases hs with
  | run i hi => exact h.threadStep hv hi
  | wakeOne i j _ _ => exact .of_waking (waking_update (.inr (.inr rfl)))
  | spurious j _ => exact .of_waking (waking_update (.inr (.inr rfl)))

/-- The futex mutex under the kernel's `FUTEX_WAKE`, for a valid encoding, any number of threads
and every interleaving: every run is a run of the mutex's model, and no wakeup is lost. While a
thread sleeps, the word is `M_LOCKD_WQ` and a thread owns the mutex, so its `unlock` takes the
store and the wake, or a thread is already at that store or wake, or at an exchange. -/
theorem futex_no_lost_wakeup (hv : enc.Valid) (h : Reachable (Init enc) (KernelStep enc) s) :
    Reachable (Init enc) (Step enc) s ∧
    ((∃ j, s.pc j = .sleeping) →
      (s.mutex = enc.LOCKD_WQ ∧ ∃ o, (s.pc o).owner) ∨
      ∃ t, s.pc t = .store ∨ s.pc t = .wake ∨ s.pc t = .xchg) := by
  have hr : Reachable (Init enc) (Step enc) s := h.mono fun _ _ hst => hst.step
  have hinv : Inv enc s := hr.invariant Inv.init fun _ _ h hst => h.step hv hst
  have hnl : NoLostWakeup enc s :=
    h.invariant (fun _ hs => .init hs) fun _ _ h hst => h.step hv hst
  refine ⟨hr, fun hsleep => ?_⟩
  rcases hnl hsleep with hw | hw
  · refine .inl ⟨hw, not_forall_not.mp fun hno => ?_⟩
    exact hv.wq_ne (hw.symm.trans (hinv.free hno))
  · exact .inr hw

/-- Thread 0 holds the mutex of `futex.c`, and thread 1, finding it `M_LOCKD`, set it to
`M_LOCKD_WQ` and went to sleep: thread 0 owns a word of `M_LOCKD_WQ`, so its `unlock` wakes
thread 1. -/
theorem futex_no_lost_wakeup_sleeper :
    let s : MutexState (Fin 2) := ⟨2, fun i => if i = 0 then .critical else .sleeping⟩
    futexEncoding.Valid ∧ Reachable (Init futexEncoding) (KernelStep futexEncoding) s ∧
    (Reachable (Init futexEncoding) (Step futexEncoding) s ∧
      ((∃ j, s.pc j = .sleeping) →
        (s.mutex = futexEncoding.LOCKD_WQ ∧ ∃ o, (s.pc o).owner) ∨
        ∃ t, s.pc t = .store ∨ s.pc t = .wake ∨ s.pc t = .xchg)) := by
  intro s
  have hr : Reachable (Init futexEncoding) (KernelStep futexEncoding) s := by
    have h0 : Reachable (Init futexEncoding) (KernelStep futexEncoding)
        (⟨0, fun _ => .idle⟩ : MutexState (Fin 2)) := .init ⟨rfl, fun _ => rfl⟩
    have h6 := ((((((h0.step (.run _ 0 (by decide))).step (.run _ 0 (by decide))).step
      (.run _ 1 (by decide))).step (.run _ 1 (by decide))).step (.run _ 1 (by decide))).step
      (.run _ 1 (by decide)))
    convert h6 using 1
    refine congrArg₂ MutexState.mk rfl (funext fun i => ?_)
    match i with
    | ⟨0, _⟩ => rfl
    | ⟨1, _⟩ => rfl
  exact ⟨futexEncoding_valid, hr, futex_no_lost_wakeup futexEncoding_valid hr⟩

end NetworkingHowto.Sync.Futex
