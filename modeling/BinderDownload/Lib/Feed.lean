import Mathlib

/-!
Handing a list of items, one after the other, to a stateful consumer that may refuse one. The first
refusal ends the hand-over.
-/

namespace BinderDownload

variable {σ α : Type}

structure Fed (σ α : Type) where
  done : Bool
  taken : List α
  state : σ

def feed (f : σ → α → Bool × σ) (s : σ) : List α → Fed σ α
  | [] => ⟨true, [], s⟩
  | x :: xs =>
    match f s x with
    | (false, t) => ⟨false, [], t⟩
    | (true, t) => ⟨(feed f t xs).done, x :: (feed f t xs).taken, (feed f t xs).state⟩

theorem feed_append (f : σ → α → Bool × σ) (s : σ) (xs ys : List α) :
    feed f s (xs ++ ys) =
      if (feed f s xs).done then
        ⟨(feed f (feed f s xs).state ys).done,
          (feed f s xs).taken ++ (feed f (feed f s xs).state ys).taken,
          (feed f (feed f s xs).state ys).state⟩
      else feed f s xs := by
  induction xs generalizing s with
  | nil => simp [feed]
  | cons x xs ih =>
    rw [List.cons_append, feed, feed]
    rcases f s x with ⟨_ | _, t⟩
    · simp
    · simp only [ih]
      split <;> simp

theorem feed_done (f : σ → α → Bool × σ) (s : σ) (xs : List α) (h : (feed f s xs).done = true) :
    (feed f s xs).taken = xs := by
  induction xs generalizing s with
  | nil => rfl
  | cons x xs ih =>
    rw [feed] at h ⊢
    rcases hx : f s x with ⟨_ | _, t⟩
    · simp [hx] at h
    · simp only [hx] at h ⊢
      rw [ih t h]

theorem feed_total {f : σ → α → Bool × σ} {g : σ → α → σ} (hf : ∀ s x, f s x = (true, g s x)) (s : σ)
    (xs : List α) : feed f s xs = ⟨true, xs, xs.foldl g s⟩ := by
  induction xs generalizing s with
  | nil => rfl
  | cons x xs ih =>
    rw [feed, hf s x]
    simp only [ih, List.foldl_cons]

theorem feed_accepting (f : σ → α → Bool × σ) (hf : ∀ s x, (f s x).1 = true) (s : σ) (xs : List α) :
    (feed f s xs).done = true := by
  have hsplit (s : σ) (x : α) : f s x = (true, (f s x).2) := Prod.ext (hf s x) rfl
  rw [feed_total hsplit]

theorem feed_part {τ : Type} {f : σ → α → Bool × σ} {g : τ → α → Bool × τ} (part : τ → σ)
    (h : ∀ t x, f (part t) x = ((g t x).1, part (g t x).2)) (t : τ) (xs : List α) :
    feed f (part t) xs = ⟨(feed g t xs).done, (feed g t xs).taken, part (feed g t xs).state⟩ := by
  induction xs generalizing t with
  | nil => rfl
  | cons x xs ih =>
    rw [feed, feed, h t x]
    rcases g t x with ⟨_ | _, u⟩
    · rfl
    · simp only [ih u]

theorem feed_invariant {f : σ → α → Bool × σ} {inv : σ → Prop} (step : ∀ s x, inv s → inv (f s x).2) {s : σ}
    (hs : inv s) (xs : List α) : inv (feed f s xs).state := by
  induction xs generalizing s with
  | nil => exact hs
  | cons x xs ih =>
    have hx := step s x hs
    rw [feed]
    rcases hf : f s x with ⟨_ | _, t⟩
    · rw [hf] at hx
      exact hx
    · rw [hf] at hx
      exact ih hx

end BinderDownload
