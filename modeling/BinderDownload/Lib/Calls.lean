import BinderDownload.Lib.Run

/-!
Programs that make calls, and what holds along their runs. The environment answers each call, and may
change the state with it.
-/

namespace BinderDownload

inductive Calls (C A α : Type)
  | pure (value : α)
  | call (request : C) (next : A → Calls C A α)

namespace Calls

variable {C A α β : Type}

def bind : Calls C A α → (α → Calls C A β) → Calls C A β
  | pure value, f => f value
  | call request next, f => call request (fun a => (next a).bind f)

instance : Monad (Calls C A) where
  pure := pure
  bind := bind

def perform (request : C) : Calls C A A := call request pure

@[simp] theorem pure_bind (value : α) (f : α → Calls C A β) : (Pure.pure value : Calls C A α) >>= f = f value := rfl

@[simp] theorem perform_bind (request : C) (f : A → Calls C A β) : perform request >>= f = call request f := rfl

variable {σ : Type} (answer : σ → C → A → Option σ)

def resume (s : σ) : Calls C A α → A → Option (σ × Calls C A α)
  | pure _, _ => none
  | call request next, a => (answer s request a).map (fun t => (t, next a))

def result : Calls C A α → Option α
  | pure value => some value
  | call _ _ => none

/-- `inv` holds before every call, and `post` of the result, whatever the answers are. -/
def Along (inv : σ → Prop) (post : α → σ → Prop) : Calls C A α → σ → Prop
  | pure value, s => post value s
  | call request next, s => inv s ∧ ∀ a t, answer s request a = some t → Along inv post (next a) t

variable {answer} {inv inv' : σ → Prop} {post post' : α → σ → Prop} {s t : σ} {p : Calls C A α}

theorem Along.mono (h : Along answer inv post p s) (hinv : ∀ s, inv s → inv' s)
    (hpost : ∀ value s, post value s → post' value s) : Along answer inv' post' p s := by
  induction p generalizing s with
  | pure value => exact hpost value s h
  | call request next ih => exact ⟨hinv s h.1, fun a t ht => ih a (h.2 a t ht)⟩

theorem Along.weaken (h : Along answer inv post p s) (hpost : ∀ value s, post value s → post' value s) :
    Along answer inv post' p s := h.mono (fun _ hs => hs) hpost

theorem Along.perform {request : C} {next : A → Calls C A α} (hs : inv s)
    (h : ∀ a t, answer s request a = some t → Along answer inv post (next a) t) :
    Along answer inv post (perform request >>= next) s := ⟨hs, h⟩

theorem Along.bind {f : α → Calls C A β} {post : β → σ → Prop}
    (h : Along answer inv (fun value => Along answer inv post (f value)) p s) : Along answer inv post (p >>= f) s := by
  induction p generalizing s with
  | pure value => exact h
  | call request next ih => exact ⟨h.1, fun a t ht => ih a (h.2 a t ht)⟩

theorem Along.resume {q : Calls C A α} {a : A} (h : Along answer inv post p s)
    (hq : p.resume answer s a = some (t, q)) : Along answer inv post q t := by
  cases p with
  | pure value => cases hq
  | call request next =>
    obtain ⟨u, hu, heq⟩ := Option.map_eq_some_iff.mp hq
    cases heq
    exact h.2 a _ hu

theorem Along.returned {value : α} (h : Along answer inv post p s) (hp : p.result = some value) : post value s := by
  cases p with
  | pure v =>
    cases hp
    exact h
  | call request next => cases hp

end Calls

end BinderDownload
