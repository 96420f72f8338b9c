import NetworkingHowto.Reachable
import Mathlib.Data.List.Infix
import Mathlib.Algebra.Group.Nat.Basic

/-! The single-producer single-consumer ring of `circular-buffer.c`, with either pair of queue
functions, and its FIFO order over every interleaving. -/
namespace NetworkingHowto.Sync.CircularBuffer

/-- `QUEUE`: the buffer and the four indices. -/
structure Queue where
  data : Nat → Nat
  size : Nat
  cachedHead : Nat
  cachedTail : Nat
  head : Nat
  tail : Nat

/-- `uint32_t` subtraction. -/
def sub32 (a b : Nat) : Nat := (a + 2^32 - b) % 2^32

/-- `queue_init`; `callocOk` is whether `calloc` returned a buffer. -/
def queueInit (size : Nat) (callocOk : Bool) : Except String Queue :=
  if size = 0 ∨ (size - 1) &&& size ≠ 0 then
    .error ("queue_init: size (" ++ toString size ++ ") is expected to be power of two\n")
  else if !callocOk then
    .error ("queue_init: size (" ++ toString size ++ ") is too big\n")
  else .ok ⟨fun _ => 0, size, 0, 0, 0, 0⟩

/-- Where the producer stands in an enqueue call; `idle` is between calls. -/
inductive ProdPc where
  | idle
  | start (elem : Nat)              -- `queue_enqueue`: `tail - queue->cached_head == queue->size`
  | loadHead (elem : Nat)           -- `atomic_load(&queue->head)`
  | test (elem h dAt : Nat)         -- `tail - head == queue->size`; `dAt` dequeues done at the load
  | write (elem t : Nat)            -- `queue->data[tail & (queue->size - 1)] = elem`
  | storeTail (elem t : Nat)        -- `atomic_store(&queue->tail, tail + 1)`
deriving DecidableEq, Repr

/-- Where the consumer stands in a dequeue call; `idle` is between calls. -/
inductive ConsPc where
  | idle
  | start                           -- `queue_dequeue`: `queue->cached_tail == head`
  | loadTail                        -- `atomic_load(&queue->tail)`
  | test (t eAt : Nat)              -- `tail == head`; `eAt` enqueues done at the load
  | read (h : Nat)                  -- `*elem = queue->data[head & (queue->size - 1)]`
  | storeHead (h v : Nat)           -- `atomic_store(&queue->head, head + 1)`
deriving DecidableEq, Repr

/-- The queue, both threads, the values of successful enqueues `enq` and dequeues `deq`,
and the unwrapped counts `ch`, `ct` that `cached_head`, `cached_tail` last copied. -/
structure QueueState where
  q : Queue
  prod : ProdPc
  cons : ConsPc
  enq : List Nat
  deq : List Nat
  ch : Nat
  ct : Nat

/-- The producer's next step inside a call; `cached` is `!ENABLE_SIMPLE`. -/
def prodStep (cached : Bool) (s : QueueState) : QueueState :=
  match s.prod with
  | .idle => s
  | .start elem =>
    if sub32 s.q.tail s.q.cachedHead = s.q.size then { s with prod := .loadHead elem }
    else { s with prod := .write elem s.q.tail }
  | .loadHead elem =>
    if cached then
      { s with q := { s.q with cachedHead := s.q.head }, ch := s.deq.length,
               prod := .test elem s.q.head s.deq.length }
    else { s with prod := .test elem s.q.head s.deq.length }
  | .test elem h _ =>
    if sub32 s.q.tail h = s.q.size then { s with prod := .idle }
    else { s with prod := .write elem s.q.tail }
  | .write elem t =>
    { s with q := { s.q with data := Function.update s.q.data (t &&& (s.q.size - 1)) elem },
             prod := .storeTail elem t }
  | .storeTail elem t =>
    { s with q := { s.q with tail := (t + 1) % 2^32 }, enq := s.enq ++ [elem], prod := .idle }

def consStep (cached : Bool) (s : QueueState) : QueueState :=
  match s.cons with
  | .idle => { s with cons := if cached then .start else .loadTail }
  | .start =>
    if s.q.cachedTail = s.q.head then { s with cons := .loadTail }
    else { s with cons := .read s.q.head }
  | .loadTail =>
    if cached then
      { s with q := { s.q with cachedTail := s.q.tail }, ct := s.enq.length,
               cons := .test s.q.tail s.enq.length }
    else { s with cons := .test s.q.tail s.enq.length }
  | .test t _ =>
    if t = s.q.head then { s with cons := .idle } else { s with cons := .read s.q.head }
  | .read h => { s with cons := .storeHead h (s.q.data (h &&& (s.q.size - 1))) }
  | .storeHead h v =>
    { s with q := { s.q with head := (h + 1) % 2^32 }, deq := s.deq ++ [v], cons := .idle }

/-- Every interleaving: the producer calls with any element, or either thread steps. -/
inductive Step (cached : Bool) : QueueState → QueueState → Prop
  | enqueue (s : QueueState) (elem : Nat) (h : s.prod = .idle) :
      Step cached s { s with prod := if cached then .start elem else .loadHead elem }
  | producer (s : QueueState) : Step cached s (prodStep cached s)
  | consumer (s : QueueState) : Step cached s (consStep cached s)

/-- `queue_init` of `2^k` succeeded; both threads are between calls. -/
def Init (k : Nat) (s : QueueState) : Prop :=
  queueInit (2^k) true = .ok s.q ∧ s.prod = .idle ∧ s.cons = .idle ∧
    s.enq = [] ∧ s.deq = [] ∧ s.ch = 0 ∧ s.ct = 0

theorem queueInit_pow_two (k : Nat) :
    queueInit (2^k) true = .ok ⟨fun _ => 0, 2^k, 0, 0, 0, 0⟩ := by
  have h0 : 2^k ≠ 0 := Nat.pos_iff_ne_zero.mp (Nat.two_pow_pos k)
  have hand : (2^k - 1) &&& 2^k = 0 := by
    rw [Nat.and_comm, Nat.and_pow_two_sub_one_eq_mod, Nat.mod_self]
  simp [queueInit, h0, hand]

theorem sub32_mod {e d : Nat} (hd : d ≤ e) (he : e - d < 2^32) :
    sub32 (e % 2^32) (d % 2^32) = e - d := by
  unfold sub32; omega

theorem mod_ne_of_lt {i e n : Nat} (h : i < e) (h' : e < i + n) : i % n ≠ e % n := fun heq => by
  have hdvd : n ∣ e - i := Nat.dvd_of_mod_eq_zero (Nat.sub_mod_eq_zero_of_mod_eq heq.symm)
  have := Nat.le_of_dvd (by omega) hdvd
  omega

theorem slot_eq {k : Nat} (hk : k < 32) (e : Nat) : (e % 2^32) &&& (2^k - 1) = e % 2^k := by
  rw [Nat.and_pow_two_sub_one_eq_mod, Nat.mod_mod_of_dvd _ (Nat.pow_dvd_pow 2 (by omega))]

theorem prefix_concat {l₁ l₂ : List Nat} {v : Nat} (h : l₁ <+: l₂) (hv : l₂[l₁.length]? = some v) :
    l₁ ++ [v] <+: l₂ := by
  obtain ⟨t, rfl⟩ := h
  cases t with
  | nil => simp at hv
  | cons x t =>
    simp only [List.getElem?_append_right (Nat.le_refl _), Nat.sub_self, List.getElem?_cons_zero,
      Option.some.injEq] at hv
    exact ⟨t, by simp [hv]⟩

/-! The invariant, with `E = enq.length` and `D = deq.length` the unwrapped `tail` and `head`. -/

section
variable (cached : Bool) (k : Nat)

def ProdFacts (s : QueueState) : ProdPc → Prop
  | .idle | .loadHead _ => True
  | .start _ => cached = true
  | .test _ h g => h = g % 2^32 ∧ g ≤ s.deq.length ∧ s.enq.length ≤ g + 2^k ∧ (cached → s.ch = g)
  | .write _ t => t = s.enq.length % 2^32 ∧ s.enq.length < s.deq.length + 2^k ∧
      (cached → s.enq.length < s.ch + 2^k)
  | .storeTail elem t => t = s.enq.length % 2^32 ∧ s.enq.length < s.deq.length + 2^k ∧
      (cached → s.enq.length < s.ch + 2^k) ∧ s.q.data (s.enq.length % 2^k) = elem

def ConsFacts (s : QueueState) : ConsPc → Prop
  | .idle | .loadTail => True
  | .start => cached = true
  | .test t g => t = g % 2^32 ∧ s.deq.length ≤ g ∧ g ≤ s.enq.length ∧ (cached → s.ct = g)
  | .read h => h = s.deq.length % 2^32 ∧ s.deq.length < s.enq.length ∧ (cached → s.deq.length < s.ct)
  | .storeHead h v => h = s.deq.length % 2^32 ∧ s.deq.length < s.enq.length ∧
      (cached → s.deq.length < s.ct) ∧ s.enq[s.deq.length]? = some v

/-- The indices are the wrapped counts, at most `size` elements are live, each live element
sits in its slot, and the caches are stale copies on the safe side. -/
structure Inv (s : QueueState) : Prop where
  size : s.q.size = 2^k
  tail : s.q.tail = s.enq.length % 2^32
  head : s.q.head = s.deq.length % 2^32
  count : s.deq.length ≤ s.enq.length ∧ s.enq.length ≤ s.deq.length + 2^k
  fifo : s.deq <+: s.enq
  data : ∀ i, s.deq.length ≤ i → i < s.enq.length → s.enq[i]? = some (s.q.data (i % 2^k))
  cachedHead : cached → s.ch ≤ s.deq.length ∧ s.enq.length ≤ s.ch + 2^k ∧
    s.q.cachedHead = s.ch % 2^32
  cachedTail : cached → s.deq.length ≤ s.ct ∧ s.ct ≤ s.enq.length ∧ s.q.cachedTail = s.ct % 2^32
  prod : ProdFacts cached k s s.prod
  cons : ConsFacts cached s s.cons

end

section
variable {cached : Bool} {k : Nat} {s : QueueState}

theorem Inv.setProd (h : Inv cached k s) {p : ProdPc} (hp : ProdFacts cached k s p) :
    Inv cached k { s with prod := p } :=
  ⟨h.size, h.tail, h.head, h.count, h.fifo, h.data, h.cachedHead, h.cachedTail, hp, h.cons⟩

theorem Inv.setCons (h : Inv cached k s) {c : ConsPc} (hc : ConsFacts cached s c) :
    Inv cached k { s with cons := c } :=
  ⟨h.size, h.tail, h.head, h.count, h.fifo, h.data, h.cachedHead, h.cachedTail, h.prod, hc⟩

theorem Inv.write (hk : k < 32) (h : Inv cached k s) {elem t : Nat} (hpc : s.prod = .write elem t) :
    Inv cached k (prodStep cached s) := by
  have hp := h.prod
  rw [hpc] at hp
  obtain ⟨ht, hroom, hcroom⟩ := hp
  have hslot : t &&& (s.q.size - 1) = s.enq.length % 2^k := by rw [ht, h.size, slot_eq hk]
  simp only [CircularBuffer.prodStep, hpc, hslot]
  refine ⟨h.size, h.tail, h.head, h.count, h.fifo, fun i hi hi' => ?_, h.cachedHead, h.cachedTail,
    ⟨ht, hroom, hcroom, Function.update_same _ _ _⟩, h.cons⟩
  dsimp only at hi hi' ⊢
  rw [h.data i hi hi', Function.update_noteq (mod_ne_of_lt hi' (by omega))]

theorem Inv.storeTail (h : Inv cached k s) {elem t : Nat} (hpc : s.prod = .storeTail elem t) :
    Inv cached k (prodStep cached s) := by
  have hp := h.prod
  rw [hpc] at hp
  obtain ⟨ht, hroom, hcroom, hslot⟩ := hp
  have hc := h.cons
  have hDE := h.count.1
  have hlen : (s.enq ++ [elem]).length = s.enq.length + 1 := List.length_append _ _
  simp only [CircularBuffer.prodStep, hpc]
  refine ⟨h.size, by dsimp only; omega, h.head, by dsimp only; omega,
    h.fifo.trans (List.prefix_append _ _), fun i hi hi' => ?_, fun hc => ?_, fun hc => ?_, trivial,
    ?_⟩
  · dsimp only at hi hi'
    rcases Nat.lt_or_ge i s.enq.length with hlt | hge
    · rw [List.getElem?_append_left hlt]; exact h.data i hi hlt
    · rw [show i = s.enq.length by omega, List.getElem?_concat_length, hslot]
  · obtain ⟨h1, h2, h3⟩ := h.cachedHead hc
    exact ⟨h1, by dsimp only; have := hcroom hc; omega, h3⟩
  · obtain ⟨h1, h2, h3⟩ := h.cachedTail hc
    exact ⟨h1, by dsimp only; omega, h3⟩
  · revert hc
    cases s.cons with
    | test t' g => exact fun ⟨h1, h2, h3, h4⟩ => ⟨h1, h2, by dsimp only; omega, h4⟩
    | read h' => exact fun ⟨h1, h2, h3⟩ => ⟨h1, by dsimp only; omega, h3⟩
    | storeHead h' v =>
      exact fun ⟨h1, h2, h3, h4⟩ =>
        ⟨h1, by dsimp only; omega, h3, by rw [List.getElem?_append_left h2]; exact h4⟩
    | _ => exact id

theorem Inv.prodStep (hk : k < 32) (h : Inv cached k s) : Inv cached k (prodStep cached s) := by
  have hlt : 2^k < 2^32 := Nat.pow_lt_pow_right (by omega) hk
  have hp := h.prod
  obtain ⟨hDE, hED⟩ := h.count
  cases hpc : s.prod with
  | idle => simpa only [CircularBuffer.prodStep, hpc] using h
  | start elem =>
    rw [hpc] at hp
    obtain ⟨hch, hchE, hcq⟩ := h.cachedHead hp
    simp only [CircularBuffer.prodStep, hpc]
    split_ifs with hfull
    · exact h.setProd trivial
    · rw [h.tail, hcq, h.size, sub32_mod (by omega) (by omega)] at hfull
      exact h.setProd ⟨h.tail, by omega, fun _ => by omega⟩
  | loadHead elem =>
    simp only [CircularBuffer.prodStep, hpc]
    split_ifs with hc
    · exact ⟨h.size, h.tail, h.head, h.count, h.fifo, h.data, fun _ => ⟨Nat.le_refl _, hED, h.head⟩,
        h.cachedTail, ⟨h.head, Nat.le_refl _, hED, fun _ => rfl⟩, h.cons⟩
    · exact h.setProd ⟨h.head, Nat.le_refl _, hED, fun h' => absurd h' hc⟩
  | test elem hh g =>
    rw [hpc] at hp
    obtain ⟨hhg, hgD, hEg, hcg⟩ := hp
    simp only [CircularBuffer.prodStep, hpc]
    split_ifs with hfull
    · exact h.setProd trivial
    · rw [h.tail, hhg, h.size, sub32_mod (by omega) (by omega)] at hfull
      exact h.setProd ⟨h.tail, by omega, fun hc => by rw [hcg hc]; omega⟩
  | write elem t => exact h.write hk hpc
  | storeTail elem t => exact h.storeTail hpc

theorem Inv.read (hk : k < 32) (h : Inv cached k s) {hh : Nat} (hpc : s.cons = .read hh) :
    Inv cached k (consStep cached s) := by
  have hc := h.cons
  rw [hpc] at hc
  obtain ⟨hhD, hDE, hct⟩ := hc
  simp only [CircularBuffer.consStep, hpc]
  refine h.setCons ⟨hhD, hDE, hct, ?_⟩
  rw [hhD, h.size, slot_eq hk]
  exact h.data _ (Nat.le_refl _) hDE

theorem Inv.storeHead (h : Inv cached k s) {hh v : Nat} (hpc : s.cons = .storeHead hh v) :
    Inv cached k (consStep cached s) := by
  have hc := h.cons
  rw [hpc] at hc
  obtain ⟨hhD, hDE, hct, hv⟩ := hc
  have hp := h.prod
  have hED := h.count.2
  have hlen : (s.deq ++ [v]).length = s.deq.length + 1 := List.length_append _ _
  simp only [CircularBuffer.consStep, hpc]
  refine ⟨h.size, h.tail, by dsimp only; omega, by dsimp only; omega, prefix_concat h.fifo hv,
    fun i hi hi' => h.data i (by dsimp only at hi; omega) hi', fun hc => ?_, fun hc => ?_, ?_,
    trivial⟩
  · obtain ⟨h1, h2, h3⟩ := h.cachedHead hc
    exact ⟨by dsimp only; omega, h2, h3⟩
  · obtain ⟨h1, h2, h3⟩ := h.cachedTail hc
    exact ⟨by dsimp only; have := hct hc; omega, h2, h3⟩
  · revert hp
    cases s.prod with
    | test elem h' g => exact fun ⟨h1, h2, h3, h4⟩ => ⟨h1, by dsimp only; omega, h3, h4⟩
    | write elem t => exact fun ⟨h1, h2, h3⟩ => ⟨h1, by dsimp only; omega, h3⟩
    | storeTail elem t => exact fun ⟨h1, h2, h3, h4⟩ => ⟨h1, by dsimp only; omega, h3, h4⟩
    | _ => exact id

theorem Inv.consStep (hk : k < 32) (h : Inv cached k s) : Inv cached k (consStep cached s) := by
  have hlt : 2^k < 2^32 := Nat.pow_lt_pow_right (by omega) hk
  have hc := h.cons
  obtain ⟨hDE, hED⟩ := h.count
  cases hpc : s.cons with
  | idle =>
    simp only [CircularBuffer.consStep, hpc]
    split_ifs with hcached
    · exact h.setCons hcached
    · exact h.setCons trivial
  | start =>
    rw [hpc] at hc
    obtain ⟨hDct, hctE, hcq⟩ := h.cachedTail hc
    simp only [CircularBuffer.consStep, hpc]
    split_ifs with hempty
    · exact h.setCons trivial
    · rw [hcq, h.head] at hempty
      have hne : s.deq.length ≠ s.ct := fun he => hempty (by rw [he])
      exact h.setCons ⟨h.head, by omega, fun _ => by omega⟩
  | loadTail =>
    simp only [CircularBuffer.consStep, hpc]
    split_ifs with hcached
    · exact ⟨h.size, h.tail, h.head, h.count, h.fifo, h.data, h.cachedHead,
        fun _ => ⟨hDE, Nat.le_refl _, h.tail⟩, h.prod, ⟨h.tail, hDE, Nat.le_refl _, fun _ => rfl⟩⟩
    · exact h.setCons ⟨h.tail, hDE, Nat.le_refl _, fun h' => absurd h' hcached⟩
  | test t g =>
    rw [hpc] at hc
    obtain ⟨htg, hDg, hgE, hctg⟩ := hc
    simp only [CircularBuffer.consStep, hpc]
    split_ifs with hempty
    · exact h.setCons trivial
    · rw [htg, h.head] at hempty
      have hne : s.deq.length ≠ g := fun he => hempty (by rw [he])
      exact h.setCons ⟨h.head, by omega, fun hcached => by rw [hctg hcached]; omega⟩
  | read hh => exact h.read hk hpc
  | storeHead hh v => exact h.storeHead hpc

theorem Inv.step (hk : k < 32) {t : QueueState} (h : Inv cached k s) (hst : Step cached s t) :
    Inv cached k t := by
  cases hst with
  | enqueue elem _ => cases cached <;> exact h.setProd (by trivial)
  | producer => exact h.prodStep hk
  | consumer => exact h.consStep hk

theorem Inv.init (h : Init k s) : Inv cached k s := by
  obtain ⟨hq, hp, hc, he, hd, hch, hct⟩ := h
  have hq' : s.q = ⟨fun _ => 0, 2^k, 0, 0, 0, 0⟩ := by
    rw [queueInit_pow_two] at hq; exact (Except.ok.inj hq).symm
  refine ⟨by rw [hq'], by rw [hq', he]; rfl, by rw [hq', hd]; rfl, by simp [he, hd], by simp [he, hd],
    fun i _ hi => by simp [he] at hi, fun _ => by simp [hq', hd, hch, he], fun _ => by simp [hq', he, hd, hct],
    by rw [hp]; trivial, by rw [hc]; trivial⟩

theorem Inv.reachable (hk : k < 32) (hs : Reachable (Init k) (Step cached) s) : Inv cached k s :=
  hs.invariant (fun _ h => Inv.init h) (fun _ _ h hst => h.step hk hst)

end

end NetworkingHowto.Sync.CircularBuffer
