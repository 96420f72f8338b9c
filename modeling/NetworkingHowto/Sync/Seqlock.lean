import NetworkingHowto.Reachable
import Mathlib.Logic.Function.Basic
import Mathlib.Tactic.Tauto
import Mathlib.Algebra.Group.Nat.Basic

/-! The sequence lock of `seqlock.c`, with ghost counts of acquisitions and releases. -/
namespace NetworkingHowto.Sync.Seqlock

def ONE_INCREMENT : Nat := 10000000

/-- `(((uint64_t) high) << 32U) | low`. -/
def combine (high low : Nat) : Nat := (high <<< 32) ||| low

/-- Where a `thread_writer` stands in one iteration of its `for` loop. -/
inductive WriterPc where
  | start                           -- top of the body, `seq0` not yet assigned
  | test (seq0 : Nat)               -- `(seq0 & 1U) || !atomic_compare_exchange_strong(...)`
  | readHigh (seq0 : Nat)           -- `*args->high`
  | readLow (seq0 high : Nat)       -- `*args->low`
  | storeHigh (seq0 current : Nat)  -- `atomic_store(args->high, current >> 32U)`
  | storeLow (seq0 current : Nat)   -- `atomic_store(args->low, current & 0xFFFFFFFFU)`
  | release (seq0 current : Nat)    -- `atomic_store(args->seqlock, seq0 + 2U)`
deriving DecidableEq, Repr

/-- Ghost record a reader takes at its first read of the sequence word. -/
structure Snapshot where
  acq : Nat
  rel : Nat
  value : Nat
deriving DecidableEq, Repr

/-- Where a `thread_reader` stands in its retry loop. -/
inductive ReaderPc where
  | load0                                           -- `seq0 = atomic_load(seqlock)`
  | loadLow (seq0 : Nat) (g : Snapshot)             -- `low = atomic_load(args->low)`
  | loadHigh (seq0 low : Nat) (g : Snapshot)        -- `high = atomic_load(args->high)`
  | load1 (seq0 low high : Nat) (g : Snapshot)      -- `seq1 = atomic_fetch_add(seqlock, 0U)`
  | done (copy : Nat)                               -- `args->copy` set, back after the backoff
deriving DecidableEq, Repr

inductive ThreadPc where
  | writer (p : WriterPc)
  | reader (p : ReaderPc)
deriving DecidableEq, Repr

/-- Shared words and the ghost state: successful compare-exchanges `acq`, release stores
`rel`, and the counter's value as of the last release. -/
structure Shared where
  seqlock : Nat
  low : Nat
  high : Nat
  acq : Nat
  rel : Nat
  value : Nat
deriving DecidableEq, Repr

structure SeqState (ι : Type*) where
  sh : Shared
  pc : ι → ThreadPc

variable {ι : Type*} [DecidableEq ι]

def SeqState.set (s : SeqState ι) (i : ι) (sh : Shared) (p : ThreadPc) : SeqState ι :=
  ⟨sh, Function.update s.pc i p⟩

def writerStep (sh : Shared) : WriterPc → Shared × WriterPc
  | .start => (sh, .start)
  | .test seq0 =>
    if seq0 &&& 1 ≠ 0 then (sh, .test seq0)
    else if sh.seqlock = seq0 then
      ({ sh with seqlock := (seq0 + 1) % 2^32, acq := sh.acq + 1 }, .readHigh seq0)
    else (sh, .test sh.seqlock)
  | .readHigh seq0 => (sh, .readLow seq0 sh.high)
  | .readLow seq0 high => (sh, .storeHigh seq0 ((combine high sh.low + ONE_INCREMENT) % 2^64))
  | .storeHigh seq0 current => ({ sh with high := (current >>> 32) % 2^32 }, .storeLow seq0 current)
  | .storeLow seq0 current => ({ sh with low := current &&& 0xFFFFFFFF }, .release seq0 current)
  | .release seq0 current =>
    ({ sh with seqlock := (seq0 + 2) % 2^32, rel := sh.rel + 1, value := current }, .start)

def readerStep (sh : Shared) : ReaderPc → ReaderPc
  | .load0 => .loadLow sh.seqlock ⟨sh.acq, sh.rel, sh.value⟩
  | .loadLow seq0 g => .loadHigh seq0 sh.low g
  | .loadHigh seq0 low g => .load1 seq0 low sh.high g
  | .load1 seq0 low high _ =>
    if seq0 ≠ sh.seqlock ∨ seq0 &&& 1 ≠ 0 then .load0 else .done (combine high low)
  | .done _ => .load0

/-- Every interleaving: a writer starts an iteration with any 32-bit garbage in `seq0`,
or any thread takes its next step. -/
inductive Step : SeqState ι → SeqState ι → Prop
  | uninit (s : SeqState ι) (i : ι) (seq0 : Nat) (hi : s.pc i = .writer .start)
      (h0 : seq0 < 2^32) : Step s (s.set i s.sh (.writer (.test seq0)))
  | writer (s : SeqState ι) (i : ι) (p : WriterPc) (hi : s.pc i = .writer p) :
      Step s (s.set i (writerStep s.sh p).1 (.writer (writerStep s.sh p).2))
  | reader (s : SeqState ι) (i : ι) (p : ReaderPc) (hi : s.pc i = .reader p) :
      Step s (s.set i s.sh (.reader (readerStep s.sh p)))

/-- `main`: all words zero; each thread is a writer at the top of its loop or a reader. -/
def Init (s : SeqState ι) : Prop :=
  s.sh = ⟨0, 0, 0, 0, 0, 0⟩ ∧ ∀ i, s.pc i = .writer .start ∨ s.pc i = .reader .load0

theorem combine_eq (high : Nat) {low : Nat} (hl : low < 2^32) : combine high low = high * 2^32 + low := by
  rw [combine, Nat.shiftLeft_eq, Nat.mul_comm, Nat.mul_add_lt_is_or hl]

theorem combine_split (c : Nat) : combine (c / 2^32) (c &&& 0xFFFFFFFF) = c := by
  have hand : c &&& 0xFFFFFFFF = c % 2^32 := Nat.and_pow_two_sub_one_eq_mod c 32
  rw [hand, combine_eq _ (Nat.mod_lt _ (by omega))]
  omega

/-! The invariant. -/

def WriterPc.inCs : WriterPc → Bool
  | .start | .test _ => false
  | _ => true

def ThreadPc.inCs : ThreadPc → Bool
  | .writer p => p.inCs
  | .reader _ => false

/-- What a writer inside its critical section knows: the sequence word is its odd
`seq0 + 1`, and the halves it has stored recombine to the value it computed. -/
def CsFacts (sh : Shared) : WriterPc → Prop
  | .start | .test _ => True
  | .readHigh seq0 | .readLow seq0 _ => sh.seqlock = (seq0 + 1) % 2^32
  | .storeHigh seq0 current => sh.seqlock = (seq0 + 1) % 2^32 ∧ current < 2^64
  | .storeLow seq0 current =>
    sh.seqlock = (seq0 + 1) % 2^32 ∧ current < 2^64 ∧ sh.high = current / 2^32
  | .release seq0 current => sh.seqlock = (seq0 + 1) % 2^32 ∧ combine sh.high sh.low = current

/-- The reader's first read found no writer inside, and no writer has entered since. -/
def Quiet (sh : Shared) (g : Snapshot) : Prop := g.acq = g.rel ∧ sh.acq = g.acq

def Snap (sh : Shared) (seq0 : Nat) (g : Snapshot) : Prop :=
  seq0 = (g.acq + g.rel) % 2^32 ∧ g.rel ≤ g.acq ∧ g.acq ≤ g.rel + 1 ∧ g.acq ≤ sh.acq ∧ g.rel ≤ sh.rel

/-- What a reader inside its retry loop knows: while no writer has entered since its first
read, the counter still has the value it saw and the halves it loaded are in memory. -/
def ReaderFacts (sh : Shared) : ReaderPc → Prop
  | .load0 | .done _ => True
  | .loadLow seq0 g => Snap sh seq0 g ∧ (Quiet sh g → sh.value = g.value)
  | .loadHigh seq0 low g => Snap sh seq0 g ∧ (Quiet sh g → sh.value = g.value ∧ low = sh.low)
  | .load1 seq0 low high g =>
    Snap sh seq0 g ∧ (Quiet sh g → sh.value = g.value ∧ low = sh.low ∧ high = sh.high)

def Facts (sh : Shared) : ThreadPc → Prop
  | .writer p => CsFacts sh p
  | .reader p => ReaderFacts sh p

/-- The sequence word counts acquisitions and releases; it is odd exactly while one writer
is inside; the halves hold the counter whenever no writer is; each thread's facts hold. -/
structure Inv (s : SeqState ι) : Prop where
  seq : s.sh.seqlock = (s.sh.acq + s.sh.rel) % 2^32
  phase : s.sh.rel ≤ s.sh.acq ∧ s.sh.acq ≤ s.sh.rel + 1
  busy : s.sh.acq = s.sh.rel + 1 ↔ ∃ i, (s.pc i).inCs
  excl : ∀ i j, (s.pc i).inCs → (s.pc j).inCs → i = j
  idle : s.sh.acq = s.sh.rel → combine s.sh.high s.sh.low = s.sh.value
  facts : ∀ i, Facts s.sh (s.pc i)

@[simp] theorem SeqState.set_sh (s : SeqState ι) (i : ι) (sh : Shared) (p : ThreadPc) :
    (s.set i sh p).sh = sh := rfl

@[simp] theorem SeqState.set_pc_self (s : SeqState ι) (i : ι) (sh : Shared) (p : ThreadPc) :
    (s.set i sh p).pc i = p := Function.update_same _ _ _

theorem SeqState.set_pc_of_ne (s : SeqState ι) {i j : ι} (sh : Shared) (p : ThreadPc) (h : j ≠ i) :
    (s.set i sh p).pc j = s.pc j := Function.update_noteq h _ _

theorem CsFacts.of_outside {sh : Shared} {p : WriterPc} (h : p.inCs = false) : CsFacts sh p := by
  cases p <;> trivial

theorem ReaderFacts.advance {sh sh' : Shared} {p : ReaderPc} (h : ReaderFacts sh p)
    (hacq : sh.acq ≤ sh'.acq) (hrel : sh.rel ≤ sh'.rel) (hlt : sh.rel < sh'.acq) :
    ReaderFacts sh' p := by
  have snap : ∀ {seq0 g}, Snap sh seq0 g → Snap sh' seq0 g ∧ ¬ Quiet sh' g :=
    fun ⟨h1, h2, h3, h4, h5⟩ => ⟨⟨h1, h2, h3, by omega, by omega⟩, fun ⟨q1, q2⟩ => by omega⟩
  cases p with
  | load0 | done _ => trivial
  | loadLow _ _ | loadHigh _ _ _ | load1 _ _ _ _ =>
    obtain ⟨h1, h2⟩ := snap h.1
    exact ⟨h1, fun hq => absurd hq h2⟩

theorem Facts.advance {sh sh' : Shared} {p : ThreadPc} (h : Facts sh p) (hp : p.inCs = false)
    (hacq : sh.acq ≤ sh'.acq) (hrel : sh.rel ≤ sh'.rel) (hlt : sh.rel < sh'.acq) : Facts sh' p := by
  cases p with
  | writer p => exact CsFacts.of_outside hp
  | reader p => exact ReaderFacts.advance h hacq hrel hlt

theorem ReaderFacts.readerStep {sh : Shared} {p : ReaderPc} (hseq : sh.seqlock = (sh.acq + sh.rel) % 2^32)
    (hph : sh.rel ≤ sh.acq ∧ sh.acq ≤ sh.rel + 1) (hp : ReaderFacts sh p) :
    ReaderFacts sh (readerStep sh p) := by
  cases p with
  | load0 => exact ⟨⟨hseq, hph.1, hph.2, Nat.le_refl _, Nat.le_refl _⟩, fun _ => rfl⟩
  | loadLow _ _ => exact ⟨hp.1, fun hq => ⟨hp.2 hq, rfl⟩⟩
  | loadHigh _ _ _ => exact ⟨hp.1, fun hq => ⟨(hp.2 hq).1, (hp.2 hq).2, rfl⟩⟩
  | load1 _ _ _ _ => simp only [Seqlock.readerStep]; split <;> trivial
  | done _ => trivial

theorem Inv.move {s : SeqState ι} (h : Inv s) {i : ι} {a b : ThreadPc} (hi : s.pc i = a)
    (hcs : b.inCs = a.inCs) (hb : Facts s.sh b) : Inv (s.set i s.sh b) := by
  subst hi
  have hall : ∀ j, ((s.set i s.sh b).pc j).inCs = (s.pc j).inCs := fun j => by
    by_cases hj : j = i
    · subst hj; simpa using hcs
    · rw [s.set_pc_of_ne _ _ hj]
  refine ⟨h.seq, h.phase, ?_, fun j k => ?_, h.idle, fun j => ?_⟩
  · simpa only [hall] using h.busy
  · simpa only [hall] using h.excl j k
  · by_cases hj : j = i
    · subst hj; simpa using hb
    · simpa [s.set_pc_of_ne _ _ hj] using h.facts j

omit [DecidableEq ι] in
theorem Inv.others_outside {s : SeqState ι} (h : Inv s) {i : ι} (hi : (s.pc i).inCs) :
    s.sh.acq = s.sh.rel + 1 ∧ ∀ j, j ≠ i → (s.pc j).inCs = false :=
  ⟨h.busy.mpr ⟨i, hi⟩, fun j hj => by
    cases hc : (s.pc j).inCs
    · rfl
    · exact absurd (h.excl j i hc hi) hj⟩

theorem Inv.store {s : SeqState ι} (h : Inv s) {i : ι} {q : WriterPc} {sh : Shared}
    (hi : (s.pc i).inCs) (hq : q.inCs) (hseq : sh.seqlock = s.sh.seqlock)
    (hacq : sh.acq = s.sh.acq) (hrel : sh.rel = s.sh.rel) (hf : CsFacts sh q) :
    Inv (s.set i sh (.writer q)) := by
  obtain ⟨hbusy, hout⟩ := h.others_outside hi
  have hall : ∀ j, ((s.set i sh (.writer q)).pc j).inCs = (s.pc j).inCs := fun j => by
    by_cases hj : j = i
    · subst hj; simpa [ThreadPc.inCs] using hq.trans hi.symm
    · rw [s.set_pc_of_ne _ _ hj]
  refine ⟨by simp only [SeqState.set_sh, hseq, hacq, hrel, h.seq], by simp only [SeqState.set_sh]; omega,
    ?_, fun j k => ?_, fun he => by simp only [SeqState.set_sh] at he; omega, fun j => ?_⟩
  · simpa only [hall, SeqState.set_sh, hacq, hrel] using h.busy
  · simpa only [hall] using h.excl j k
  · by_cases hj : j = i
    · subst hj; simpa using hf
    · rw [s.set_pc_of_ne _ _ hj, SeqState.set_sh]
      exact (h.facts j).advance (hout j hj) (by omega) (by omega) (by omega)

theorem Inv.acquire {s : SeqState ι} (h : Inv s) {i : ι} {seq0 : Nat}
    (heven : seq0 &&& 1 = 0) (hseq : s.sh.seqlock = seq0) :
    Inv (s.set i { s.sh with seqlock := (seq0 + 1) % 2^32, acq := s.sh.acq + 1 }
      (.writer (.readHigh seq0))) := by
  have hfree : s.sh.acq = s.sh.rel := by
    have h1 := h.seq; have h2 := h.phase; rw [Nat.and_one_is_mod] at heven; omega
  have hout : ∀ j, (s.pc j).inCs = false := fun j => by
    cases hc : (s.pc j).inCs
    · rfl
    · have := h.busy.mpr ⟨j, hc⟩; omega
  have hall : ∀ j, ((s.set i { s.sh with seqlock := (seq0 + 1) % 2^32, acq := s.sh.acq + 1 }
      (.writer (.readHigh seq0))).pc j).inCs ↔ j = i := fun j => by
    by_cases hj : j = i
    · subst hj; simp [ThreadPc.inCs, WriterPc.inCs]
    · simp [s.set_pc_of_ne _ _ hj, hout j, hj]
  have h1 := h.seq
  refine ⟨by simp only [SeqState.set_sh]; omega, by simp only [SeqState.set_sh]; omega,
    ⟨fun _ => ⟨i, (hall i).mpr rfl⟩, fun _ => by simp only [SeqState.set_sh]; omega⟩,
    fun j k hj hk => ((hall j).mp hj).trans ((hall k).mp hk).symm,
    fun he => by simp only [SeqState.set_sh] at he; omega, fun j => ?_⟩
  by_cases hj : j = i
  · subst hj; simp only [SeqState.set_pc_self]; rfl
  · rw [s.set_pc_of_ne _ _ hj, SeqState.set_sh]
    exact (h.facts j).advance (hout j) (by dsimp only; omega) (by dsimp only; omega) (by dsimp only; omega)

theorem Inv.release {s : SeqState ι} (h : Inv s) {i : ι} {seq0 current : Nat}
    (hi : s.pc i = .writer (.release seq0 current)) :
    Inv (s.set i { s.sh with seqlock := (seq0 + 2) % 2^32, rel := s.sh.rel + 1, value := current }
      (.writer .start)) := by
  have hf := h.facts i
  rw [hi] at hf
  obtain ⟨hs0, hcomb⟩ := hf
  obtain ⟨hbusy, hout⟩ := h.others_outside (show (s.pc i).inCs from by rw [hi]; rfl)
  have hall : ∀ j, ((s.set i { s.sh with seqlock := (seq0 + 2) % 2^32, rel := s.sh.rel + 1, value := current }
      (.writer .start)).pc j).inCs = false := fun j => by
    by_cases hj : j = i
    · subst hj; rw [SeqState.set_pc_self]; rfl
    · rw [s.set_pc_of_ne _ _ hj, hout j hj]
  have h1 := h.seq
  refine ⟨by simp only [SeqState.set_sh]; omega, by simp only [SeqState.set_sh]; omega,
    ⟨fun he => by simp only [SeqState.set_sh] at he; omega,
      fun ⟨j, hj⟩ => absurd ((hall j).symm.trans hj) Bool.false_ne_true⟩,
    fun j _ hj => absurd ((hall j).symm.trans hj) Bool.false_ne_true, fun _ => hcomb, fun j => ?_⟩
  by_cases hj : j = i
  · subst hj; simp only [SeqState.set_pc_self]; trivial
  · rw [s.set_pc_of_ne _ _ hj, SeqState.set_sh]
    exact (h.facts j).advance (hout j hj) (by dsimp only; omega) (by dsimp only; omega) (by dsimp only; omega)

theorem Inv.step {s t : SeqState ι} (h : Inv s) (hst : Step s t) : Inv t := by
  cases hst with
  | uninit i seq0 hi _ => exact h.move hi rfl trivial
  | reader i p hi =>
    have hp := h.facts i
    rw [hi] at hp
    exact h.move hi rfl (hp.readerStep h.seq h.phase)
  | writer i p hi =>
    have hf := h.facts i
    rw [hi] at hf
    have hcs : p.inCs → (s.pc i).inCs := fun hp => by rw [hi]; exact hp
    cases p with
    | start => exact h.move hi rfl trivial
    | test seq0 =>
      simp only [writerStep]
      split_ifs with hodd hcas
      · exact h.move hi rfl trivial
      · exact h.acquire (by simpa using hodd) hcas
      · exact h.move hi rfl trivial
    | readHigh seq0 => exact h.store (hcs rfl) rfl rfl rfl rfl hf
    | readLow seq0 high => exact h.store (hcs rfl) rfl rfl rfl rfl ⟨hf, Nat.mod_lt _ (by omega)⟩
    | storeHigh seq0 current =>
      obtain ⟨h1, h2⟩ := hf
      exact h.store (hcs rfl) rfl rfl rfl rfl
        ⟨h1, h2, show (current >>> 32) % 2^32 = _ by rw [Nat.shiftRight_eq_div_pow]; omega⟩
    | storeLow seq0 current =>
      exact h.store (hcs rfl) rfl rfl rfl rfl ⟨hf.1, show combine s.sh.high _ = _ by rw [hf.2.2]; exact combine_split current⟩
    | release seq0 current => exact h.release hi

omit [DecidableEq ι] in
theorem Inv.init {s : SeqState ι} (h : Init s) : Inv s := by
  obtain ⟨hsh, hpc⟩ := h
  have hout : ∀ i, (s.pc i).inCs = false := fun i => by rcases hpc i with h | h <;> rw [h] <;> rfl
  refine ⟨by simp [hsh], by simp [hsh], ⟨fun he => by simp [hsh] at he, fun ⟨i, hi⟩ => ?_⟩,
    fun i _ hi => ?_, fun _ => by simp [hsh, combine], fun i => ?_⟩
  · simp [hout i] at hi
  · simp [hout i] at hi
  · rcases hpc i with h | h <;> rw [h] <;> trivial

theorem Inv.reachable {s : SeqState ι} (hs : Reachable Init Step s) : Inv s :=
  hs.invariant (fun _ h => Inv.init h) (fun _ _ h hst => h.step hst)

/-- Writers exclude each other and the sequence word is odd exactly while one is inside.
A reader that leaves its retry loop, with fewer than `2^31` releases since its first read,
assembles the counter's value: the halves in memory at its second read, which is also the
value the counter had at its first. -/
theorem seqlock_exclusive_untorn (s : SeqState ι) (hs : Reachable Init Step s) :
    (∀ i j, (s.pc i).inCs → (s.pc j).inCs → i = j) ∧
    (s.sh.seqlock % 2 = 1 ↔ ∃ i, (s.pc i).inCs) ∧
    ∀ i seq0 low high g, s.pc i = .reader (.load1 seq0 low high g) →
      seq0 = s.sh.seqlock → seq0 &&& 1 = 0 → s.sh.rel - g.rel < 2^31 →
      combine high low = combine s.sh.high s.sh.low ∧ combine high low = g.value := by
  have h := Inv.reachable hs
  have hseq := h.seq
  have hph := h.phase
  refine ⟨h.excl, by rw [← h.busy]; omega, fun i seq0 low high g hi h0 heven hlt => ?_⟩
  have hf := h.facts i
  rw [hi] at hf
  obtain ⟨⟨hg, hg1, hg2, hga, hgr⟩, hq⟩ := hf
  rw [Nat.and_one_is_mod] at heven
  obtain ⟨hv, rfl, rfl⟩ := hq ⟨by omega, by omega⟩
  exact ⟨rfl, (h.idle (by omega)).trans hv⟩

/-- A writer, thread 0, runs a whole iteration and adds `ONE_INCREMENT`; the reader, thread 1,
then reads the even sequence word 2, both halves and the word again, and leaves with the
counter's value. -/
theorem seqlock_exclusive_untorn_after_write :
    ∃ s : SeqState (Fin 2), Reachable Init Step s ∧
      s.pc 1 = .reader (.load1 2 ONE_INCREMENT 0 ⟨1, 1, ONE_INCREMENT⟩) ∧ 2 = s.sh.seqlock ∧
      2 &&& 1 = 0 ∧ s.sh.rel - 1 < 2^31 ∧
      (combine 0 ONE_INCREMENT = combine s.sh.high s.sh.low ∧
        combine 0 ONE_INCREMENT = ONE_INCREMENT) := by
  have h0 : Reachable Init Step (⟨⟨0, 0, 0, 0, 0, 0⟩,
      fun i => if i = 0 then .writer .start else .reader .load0⟩ : SeqState (Fin 2)) :=
    .init ⟨rfl, by decide⟩
  have h1 := h0.step (.uninit _ 0 0 rfl (by decide))
  have hw := (((((h1.step (.writer _ 0 _ rfl)).step (.writer _ 0 _ rfl)).step
    (.writer _ 0 _ rfl)).step (.writer _ 0 _ rfl)).step (.writer _ 0 _ rfl)).step
    (.writer _ 0 _ rfl)
  have hr := ((hw.step (.reader _ 1 _ rfl)).step (.reader _ 1 _ rfl)).step (.reader _ 1 _ rfl)
  exact ⟨_, hr, rfl, rfl, by decide, by decide,
    (seqlock_exclusive_untorn _ hr).2.2 1 2 ONE_INCREMENT 0 ⟨1, 1, ONE_INCREMENT⟩ rfl rfl
      (by decide) (by decide)⟩

end NetworkingHowto.Sync.Seqlock
