import Mathlib.Logic.Basic
import Mathlib.Algebra.BigOperators.Group.Finset
import Mathlib.Algebra.Order.Ring.Nat
import Mathlib.Logic.Relation

/-! Runs of a transition system and the induction every invariant of a run goes through; the
`for` loops inside one step, on `Except`, where an `exit` is an `.error`. -/
namespace NetworkingHowto

/-- States reachable from `init` along `step`; every interleaving or schedule the
environment may choose is one path of this relation. -/
inductive Reachable {σ : Type*} (init : σ → Prop) (step : σ → σ → Prop) : σ → Prop
  | init {s : σ} : init s → Reachable init step s
  | step {s t : σ} : Reachable init step s → step s t → Reachable init step t

namespace Reachable
variable {σ : Type*} {init : σ → Prop} {step : σ → σ → Prop}

theorem invariant {inv : σ → Prop} (h0 : ∀ s, init s → inv s)
    (h1 : ∀ s t, inv s → step s t → inv t) {s : σ} (h : Reachable init step s) : inv s := by
  induction h with
  | init hs => exact h0 _ hs
  | step _ hst ih => exact h1 _ _ ih hst

theorem mono {step' : σ → σ → Prop} (hst : ∀ s t, step s t → step' s t) {s : σ}
    (h : Reachable init step s) : Reachable init step' s := by
  induction h with
  | init hs => exact .init hs
  | step _ h ih => exact .step ih (hst _ _ h)

theorem reflTransGen {s t : σ} (h : Reachable init step s) (hst : Relation.ReflTransGen step s t) :
    Reachable init step t := by
  induction hst with
  | refl => exact h
  | tail _ hbc ih => exact .step ih hbc

end Reachable

theorem sum_update_add {ι α : Type*} [DecidableEq ι] (g : α → Nat) (f : ι → α) {s : Finset ι}
    {t : ι} (ht : t ∈ s) (p : α) :
    (∑ j in s, g (Function.update f t p j)) + g (f t) = (∑ j in s, g (f j)) + g p := by
  rw [Finset.sum_congr rfl fun j _ => Function.apply_update (fun _ => g) f t p j,
    Finset.sum_update_of_mem ht, Finset.sum_eq_add_sum_diff_singleton ht]
  omega

theorem update_eq_some {ι α : Type*} [DecidableEq ι] {f : ι → Option α} {t i : ι}
    {v : Option α} {a : α} (h : Function.update f t v i = some a) :
    (i = t ∧ v = some a) ∨ (i ≠ t ∧ f i = some a) := by
  by_cases hit : i = t
  · subst hit
    rw [Function.update_same] at h
    exact .inl ⟨rfl, h⟩
  · rw [Function.update_noteq hit] at h
    exact .inr ⟨hit, h⟩

theorem forall_update_some {ι α : Type*} [DecidableEq ι] {f : ι → Option α} {P : ι → α → Prop}
    {t : ι} {v : Option α} (hf : ∀ i a, f i = some a → P i a) (hv : ∀ a, v = some a → P t a) :
    ∀ i a, Function.update f t v i = some a → P i a := by
  intro i a h
  rcases update_eq_some h with ⟨rfl, hv'⟩ | ⟨-, hf'⟩
  · exact hv a hv'
  · exact hf i a hf'

@[simp] theorem ok_bind {α β : Type} (a : α) (f : α → Except String β) :
    (Except.ok a >>= f) = f a := rfl

@[simp] theorem map_ok {α β : Type} (f : α → β) (a : α) :
    (f <$> (Except.ok a : Except String α)) = .ok (f a) := rfl

theorem ok_of_bind_ok {α β : Type} {x : Except String α} {f : α → Except String β} {b : β}
    (h : x >>= f = .ok b) : ∃ a, x = .ok a ∧ f a = .ok b := by
  cases x with
  | error err => cases h
  | ok a => exact ⟨a, rfl, h⟩

theorem error_of_bind_error {α β : Type} {x : Except String α} {f : α → Except String β}
    {m : String} (h : x >>= f = .error m) : x = .error m ∨ ∃ a, x = .ok a ∧ f a = .error m := by
  cases x with
  | error err => cases h; exact .inl rfl
  | ok a => exact .inr ⟨a, rfl, h⟩

theorem foldlM_invariant {α σ : Type} {f : σ → α → Except String σ} (Q : List α → σ → Prop)
    (step : ∀ x rest s s', Q (x :: rest) s → f s x = .ok s' → Q rest s') :
    ∀ {l : List α} {s t : σ}, Q l s → l.foldlM f s = .ok t → Q [] t
  | [], s, t, hq, h => by cases h; exact hq
  | x :: rest, s, t, hq, h => by
    rw [List.foldlM_cons] at h
    obtain ⟨u, hu, hf⟩ := ok_of_bind_ok h
    exact foldlM_invariant Q step (step x rest s u hq hu) hf

theorem foldlM_ok {α σ : Type} {f : σ → α → Except String σ} (Q : List α → σ → Prop)
    (step : ∀ x rest s, Q (x :: rest) s → ∃ s', f s x = .ok s' ∧ Q rest s') :
    ∀ {l : List α} {s : σ}, Q l s → ∃ t, l.foldlM f s = .ok t
  | [], s, _ => ⟨s, rfl⟩
  | x :: rest, s, hq => by
    obtain ⟨u, hu, hq'⟩ := step x rest s hq
    obtain ⟨t, ht⟩ := foldlM_ok Q step hq'
    exact ⟨t, by rw [List.foldlM_cons, hu]; exact ht⟩

theorem foldlM_error {α σ : Type} {f : σ → α → Except String σ} (Q : List α → σ → Prop)
    (step : ∀ x rest s s', Q (x :: rest) s → f s x = .ok s' → Q rest s') {m : String} :
    ∀ {l : List α} {s : σ}, Q l s → l.foldlM f s = .error m →
      ∃ x rest u, Q (x :: rest) u ∧ f u x = .error m
  | [], s, hq, h => by cases h
  | x :: rest, s, hq, h => by
    rw [List.foldlM_cons] at h
    rcases error_of_bind_error h with hx | ⟨u, hu, hf⟩
    · exact ⟨x, rest, s, hq, hx⟩
    · exact foldlM_error Q step (step x rest s u hq hu) hf

theorem foldlM_range_succ {σ : Type} (f : σ → Nat → Except String σ) (n : Nat) (s : σ) :
    (List.range (n + 1)).foldlM f s = (List.range n).foldlM f s >>= fun t => f t n := by
  simp [List.range_succ, List.foldlM_append]

theorem range_foldlM_invariant {σ : Type} {f : σ → Nat → Except String σ} (Q : Nat → σ → Prop)
    {n : Nat} (step : ∀ k < n, ∀ s s', Q k s → f s k = .ok s' → Q (k + 1) s') {s t : σ}
    (hq : Q 0 s) (h : (List.range n).foldlM f s = .ok t) : Q n t := by
  induction n generalizing t with
  | zero => cases h; exact hq
  | succ n ih =>
    rw [foldlM_range_succ] at h
    obtain ⟨u, hu, hf⟩ := ok_of_bind_ok h
    exact step n (Nat.lt_succ_self n) u t (ih (fun k hk => step k (by omega)) hu) hf

theorem range_foldlM_ok {σ : Type} {f : σ → Nat → Except String σ} (Q : Nat → σ → Prop)
    {n : Nat} (step : ∀ k < n, ∀ s, Q k s → ∃ s', f s k = .ok s' ∧ Q (k + 1) s') {s : σ}
    (hq : Q 0 s) : ∃ t, (List.range n).foldlM f s = .ok t ∧ Q n t := by
  induction n with
  | zero => exact ⟨s, rfl, hq⟩
  | succ n ih =>
    obtain ⟨u, hu, hqu⟩ := ih fun k hk => step k (by omega)
    obtain ⟨t, ht, hqt⟩ := step n (Nat.lt_succ_self n) u hqu
    exact ⟨t, by rw [foldlM_range_succ, hu]; exact ht, hqt⟩

theorem range_foldlM_error {σ : Type} {f : σ → Nat → Except String σ} (Q : Nat → σ → Prop)
    {n : Nat} (step : ∀ k < n, ∀ s s', Q k s → f s k = .ok s' → Q (k + 1) s') {s : σ}
    {m : String} (hq : Q 0 s) (h : (List.range n).foldlM f s = .error m) :
    ∃ k < n, ∃ u, Q k u ∧ f u k = .error m := by
  induction n with
  | zero => cases h
  | succ n ih =>
    rw [foldlM_range_succ] at h
    rcases error_of_bind_error h with hx | ⟨u, hu, hf⟩
    · obtain ⟨k, hk, u, hq', hu'⟩ := ih (fun k hk => step k (by omega)) hx
      exact ⟨k, by omega, u, hq', hu'⟩
    · exact ⟨n, Nat.lt_succ_self n, u,
        range_foldlM_invariant Q (fun k hk => step k (by omega)) hq hu, hf⟩

end NetworkingHowto
