import NetworkingHowto.Sync.CircularBuffer

/-! The benchmark `main` of `circular-buffer.c` on the ring: the consumer's comparison never
fails. -/
namespace NetworkingHowto.Sync.CircularBuffer

def NUM_ITERATIONS : Nat := 100000000

/-- `QUEUE_SIZE = 64U`, which is `2^6`. -/
def QUEUE_SIZE_LOG : Nat := 6

structure BenchState where
  qs : QueueState
  sndI : Nat
  rcvI : Nat

/-- The element the producer's next step publishes: a successful call ends with it. -/
def ProdPc.stored : ProdPc → List Nat
  | .storeTail e _ => [e]
  | _ => []

/-- The element the consumer's next step takes: a successful call ends with it. -/
def ConsPc.taken : ConsPc → List Nat
  | .storeHead _ v => [v]
  | _ => []

def ProdPc.elem? : ProdPc → Option Nat
  | .idle => none
  | .start e | .loadHead e | .test e _ _ | .write e _ | .storeTail e _ => some e

theorem ProdPc.stored_cases (p : ProdPc) :
    p.stored = [] ∨ ∃ e, p.stored = [e] ∧ p.elem? = some e := by
  cases p <;> simp [ProdPc.stored, ProdPc.elem?]

/-- The consumer's next step: a dequeue that succeeds ends with the comparison of
`thread_consumer`, whose mismatch is the `exit`. -/
def consumerStep (cached : Bool) (s : BenchState) : Except String BenchState :=
  match s.qs.cons with
  | .storeHead _ v =>
    if v ≠ s.rcvI then .error "Invalid queue element: expected %lu, got %lu\n"
    else .ok ⟨consStep cached s.qs, s.sndI, s.rcvI + 1⟩
  | _ => .ok ⟨consStep cached s.qs, s.sndI, s.rcvI⟩

/-- Every interleaving of the two threads. The producer calls with `snd_i` while
`snd_i < NUM_ITERATIONS`; the consumer starts a call while `rcv_i < NUM_ITERATIONS`. -/
inductive BenchStep (cached : Bool) : BenchState → BenchState → Prop
  | enqueue (s : BenchState) (h : s.qs.prod = .idle) (hlt : s.sndI < NUM_ITERATIONS) :
      BenchStep cached s ⟨{ s.qs with prod := if cached then .start s.sndI else .loadHead s.sndI },
        s.sndI, s.rcvI⟩
  | producer (s : BenchState) :
      BenchStep cached s ⟨prodStep cached s.qs, s.sndI + s.qs.prod.stored.length, s.rcvI⟩
  | consumer (s u : BenchState) (hlt : s.qs.cons = .idle → s.rcvI < NUM_ITERATIONS)
      (h : consumerStep cached s = .ok u) : BenchStep cached s u

/-- `queue_init(&queue, QUEUE_SIZE)` succeeded and both threads are at the top of their
loops. -/
def BenchInit (s : BenchState) : Prop :=
  Init QUEUE_SIZE_LOG s.qs ∧ s.sndI = 0 ∧ s.rcvI = 0

/-! ### What one step of each thread changes -/

theorem prodStep_enq (cached : Bool) (s : QueueState) :
    (prodStep cached s).enq = s.enq ++ s.prod.stored := by
  unfold prodStep
  split <;> (try split_ifs) <;> simp_all [ProdPc.stored]

theorem prodStep_deq (cached : Bool) (s : QueueState) : (prodStep cached s).deq = s.deq := by
  unfold prodStep
  split <;> (try split_ifs) <;> rfl

theorem prodStep_cons (cached : Bool) (s : QueueState) : (prodStep cached s).cons = s.cons := by
  unfold prodStep
  split <;> (try split_ifs) <;> rfl

theorem prodStep_elem? (cached : Bool) (s : QueueState) {e : Nat}
    (h : (prodStep cached s).prod.elem? = some e) : s.prod.elem? = some e ∧ s.prod.stored = [] := by
  revert h
  unfold prodStep
  split <;> (try split_ifs) <;> simp_all [ProdPc.elem?, ProdPc.stored]

theorem consStep_enq (cached : Bool) (s : QueueState) : (consStep cached s).enq = s.enq := by
  unfold consStep
  split <;> (try split_ifs) <;> rfl

theorem consStep_prod (cached : Bool) (s : QueueState) : (consStep cached s).prod = s.prod := by
  unfold consStep
  split <;> (try split_ifs) <;> rfl

theorem consStep_deq (cached : Bool) (s : QueueState) :
    (consStep cached s).deq = s.deq ++ s.cons.taken := by
  unfold consStep
  split <;> (try split_ifs) <;> simp_all [ConsPc.taken]

theorem consumerStep_ok {cached : Bool} {s u : BenchState} (h : consumerStep cached s = .ok u) :
    u = ⟨consStep cached s.qs, s.sndI, s.rcvI + s.qs.cons.taken.length⟩ := by
  unfold consumerStep at h
  split at h
  · next hd v hc =>
    split_ifs at h
    cases h
    rw [hc]
    rfl
  · next hnot =>
    cases h
    have htaken : s.qs.cons.taken = [] := by
      cases hc : s.qs.cons <;> first | rfl | exact absurd hc (hnot _ _)
    rw [htaken]
    rfl

/-! ### The benchmark's runs -/

theorem BenchStep.step {cached : Bool} {s u : BenchState} (h : BenchStep cached s u) :
    Step cached s.qs u.qs := by
  cases h with
  | enqueue hidle _ => exact .enqueue _ _ hidle
  | producer => exact .producer _
  | consumer _ _ hcons =>
    rw [consumerStep_ok hcons]
    exact .consumer _

theorem BenchInit.reachable {cached : Bool} {s : BenchState}
    (h : Reachable BenchInit (BenchStep cached) s) :
    Reachable (Init QUEUE_SIZE_LOG) (Step cached) s.qs := by
  induction h with
  | init h0 => exact .init h0.1
  | step _ hst ih => exact .step ih hst.step

/-- What the benchmark adds to the ring's invariant: `snd_i` and `rcv_i` count the
successful calls, the elements enqueued are `0, 1, ...` in order, and the producer's call in
progress is for the next one. -/
structure BenchInv (s : BenchState) : Prop where
  snd : s.sndI = s.qs.enq.length
  rcv : s.rcvI = s.qs.deq.length
  enq : s.qs.enq = List.range s.qs.enq.length
  elem : ∀ e, s.qs.prod.elem? = some e → e = s.qs.enq.length

theorem BenchInv.init {s : BenchState} (h : BenchInit s) : BenchInv s := by
  obtain ⟨⟨-, hp, -, he, hd, -⟩, hs, hr⟩ := h
  refine ⟨by rw [hs, he]; rfl, by rw [hr, hd]; rfl, by rw [he]; rfl, fun e he' => ?_⟩
  rw [hp] at he'
  cases he'

theorem BenchInv.storeHead {cached : Bool} {s : BenchState} (h : BenchInv s)
    (hq : Inv cached QUEUE_SIZE_LOG s.qs) {hd v : Nat} (hc : s.qs.cons = .storeHead hd v) :
    v = s.rcvI := by
  have hf := hq.cons
  rw [hc] at hf
  obtain ⟨-, hlt, -, hv⟩ := hf
  rw [h.enq, List.getElem?_range hlt] at hv
  rw [h.rcv]
  exact (Option.some.inj hv).symm

theorem BenchInv.step {cached : Bool} {s u : BenchState} (h : BenchInv s)
    (hq : Inv cached QUEUE_SIZE_LOG s.qs) (hst : BenchStep cached s u) : BenchInv u := by
  cases hst with
  | enqueue hidle _ =>
    refine ⟨h.snd, h.rcv, h.enq, fun e he => ?_⟩
    dsimp only at he ⊢
    rw [← h.snd]
    cases cached <;> exact (Option.some.inj he).symm
  | producer =>
    have henq := prodStep_enq cached s.qs
    have hdeq := prodStep_deq cached s.qs
    have helem := h.elem
    refine ⟨?_, by dsimp only; rw [hdeq]; exact h.rcv, ?_, fun e he => ?_⟩
    · dsimp only
      rw [henq, h.snd, List.length_append]
    · dsimp only
      rw [henq]
      rcases s.qs.prod.stored_cases with hnil | ⟨e, hs, he⟩
      · rw [hnil, List.append_nil]
        exact h.enq
      · rw [hs, List.length_append, List.length_singleton, List.range_succ, ← h.enq, helem e he]
    · obtain ⟨he', hnone⟩ := prodStep_elem? cached s.qs he
      dsimp only
      rw [henq, hnone, List.append_nil]
      exact helem e he'
  | consumer _ _ hcons =>
    obtain rfl := consumerStep_ok hcons
    have hdeq := consStep_deq cached s.qs
    refine ⟨h.snd.trans (congrArg List.length (consStep_enq cached s.qs).symm),
      by dsimp only; rw [hdeq, List.length_append, h.rcv],
      by dsimp only; rw [consStep_enq]; exact h.enq, fun e he => ?_⟩
    dsimp only at he ⊢
    rw [consStep_enq]
    exact h.elem e (by rwa [consStep_prod] at he)

theorem BenchInv.reachable {cached : Bool} {s : BenchState}
    (h : Reachable BenchInit (BenchStep cached) s) :
    BenchInv s ∧ Inv cached QUEUE_SIZE_LOG s.qs :=
  @Reachable.invariant _ _ _ (fun s => BenchInv s ∧ Inv cached QUEUE_SIZE_LOG s.qs)
    (fun _ h0 => ⟨BenchInv.init h0, Inv.init h0.1⟩)
    (fun _ _ ⟨hb, hq⟩ hst => ⟨hb.step hq hst, hq.step (by decide) hst.step⟩) _ h

/-- The benchmark of `circular-buffer.c`, for either pair of queue functions and every
interleaving of the producer and the consumer: `snd_i` and `rcv_i` count the successful
enqueues and dequeues, the consumer has received exactly `0, 1, ..., rcv_i - 1` in order, and
no step of the consumer takes the exit "Invalid queue element". -/
theorem queue_benchmark_never_mismatches (cached : Bool) {s : BenchState}
    (h : Reachable BenchInit (BenchStep cached) s) :
    s.sndI = s.qs.enq.length ∧ s.rcvI = s.qs.deq.length ∧ s.qs.deq = List.range s.rcvI ∧
      ∃ u, consumerStep cached s = .ok u := by
  obtain ⟨hb, hq⟩ := BenchInv.reachable h
  refine ⟨hb.snd, hb.rcv, ?_, ?_⟩
  · rw [List.prefix_iff_eq_take.mp hq.fifo, hb.enq, List.take_range, Nat.min_eq_left hq.count.1,
      hb.rcv]
  · unfold consumerStep
    split
    · next hd v hc => exact ⟨_, if_neg (not_not.mpr (hb.storeHead hq hc))⟩
    · exact ⟨_, rfl⟩

/-- The simple queue functions: the producer enqueues `0`, and the consumer's dequeue has read
it and is about to compare it with `rcv_i = 0`. -/
theorem queue_benchmark_never_mismatches_first_element :
    ∃ s : BenchState, Reachable BenchInit (BenchStep false) s ∧ s.qs.cons = .storeHead 0 0 ∧
      (s.sndI = s.qs.enq.length ∧ s.rcvI = s.qs.deq.length ∧ s.qs.deq = List.range s.rcvI ∧
        ∃ u, consumerStep false s = .ok u) := by
  have h0 : Reachable BenchInit (BenchStep false)
      ⟨⟨⟨fun _ => 0, 2^6, 0, 0, 0, 0⟩, .idle, .idle, [], [], 0, 0⟩, 0, 0⟩ :=
    .init ⟨⟨queueInit_pow_two QUEUE_SIZE_LOG, rfl, rfl, rfl, rfl, rfl, rfl⟩, rfl, rfl⟩
  have hp := ((((h0.step (.enqueue _ rfl (by decide))).step (.producer _)).step (.producer _)).step
    (.producer _)).step (.producer _)
  have hc := (((hp.step (.consumer _ _ (fun _ => by decide) rfl)).step
    (.consumer _ _ (fun _ => by decide) rfl)).step (.consumer _ _ (fun _ => by decide) rfl)).step
    (.consumer _ _ (fun _ => by decide) rfl)
  exact ⟨_, hc, rfl, queue_benchmark_never_mismatches false hc⟩

end NetworkingHowto.Sync.CircularBuffer
