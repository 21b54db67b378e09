import Mathlib

/-!
What can be said about a list that grows at its end: something holds of each element and what came before
it, or something happened and nothing has undone it since.
-/

namespace BinderDownload

variable {α : Type} {Q : List α → α → Prop} {p q : α → Prop} {l : List α} {a : α}

def Throughout (Q : List α → α → Prop) (l : List α) : Prop := ∀ front x back, l = front ++ x :: back → Q front x

def Since (p q : α → Prop) (l : List α) : Prop := ∃ front x back, l = front ++ x :: back ∧ p x ∧ ∀ y ∈ back, ¬ q y

theorem split_append {front back : List α} {x : α} (h : l ++ [a] = front ++ x :: back) :
    l = front ∧ a = x ∧ back = [] ∨ ∃ rest, back = rest ++ [a] ∧ l = front ++ x :: rest := by
  cases back using List.reverseRecOn with
  | nil =>
    obtain ⟨hfront, hx⟩ := List.append_inj' h rfl
    exact .inl ⟨hfront, List.singleton_inj.mp hx, rfl⟩
  | append_singleton rest b =>
    have hcons : front ++ x :: (rest ++ [b]) = (front ++ x :: rest) ++ [b] := by simp
    rw [hcons] at h
    obtain ⟨hfront, hb⟩ := List.append_inj' h rfl
    rw [List.singleton_inj.mp hb]
    exact .inr ⟨rest, rfl, hfront⟩

theorem Throughout.nil : Throughout Q ([] : List α) := by
  intro front x back h
  exact absurd h.symm (by simp)

theorem throughout_append : Throughout Q (l ++ [a]) ↔ Throughout Q l ∧ Q l a := by
  constructor
  · intro h
    refine ⟨fun front x back hl => ?_, h l a [] rfl⟩
    apply h front x (back ++ [a])
    rw [hl, List.append_assoc]
    rfl
  · rintro ⟨hl, ha⟩ front x back h
    rcases split_append h with ⟨rfl, rfl, -⟩ | ⟨rest, -, hrest⟩
    · exact ha
    · exact hl front x rest hrest

theorem not_since_nil : ¬ Since p q ([] : List α) := by
  rintro ⟨front, x, back, h, -⟩
  exact absurd h.symm (by simp)

theorem since_append : Since p q (l ++ [a]) ↔ p a ∨ (Since p q l ∧ ¬ q a) := by
  constructor
  · rintro ⟨front, x, back, h, hx, hback⟩
    rcases split_append h with ⟨rfl, rfl, -⟩ | ⟨rest, rfl, hrest⟩
    · exact .inl hx
    · refine .inr ⟨⟨front, x, rest, hrest, hx, fun y hy => ?_⟩, ?_⟩
      · exact hback y (List.mem_append_left _ hy)
      · exact hback a (List.mem_append_right _ (List.mem_singleton_self a))
  · rintro (ha | ⟨⟨front, x, back, rfl, hx, hback⟩, hq⟩)
    · exact ⟨l, a, [], rfl, ha, by simp⟩
    · refine ⟨front, x, back ++ [a], by simp, hx, fun y hy => ?_⟩
      rcases List.mem_append.mp hy with hy | hy
      · exact hback y hy
      · rw [List.mem_singleton.mp hy]
        exact hq

theorem since_map {β : Type} {r u : β → Prop} {f : β → α} {m : List β} (hp : ∀ b, p (f b) ↔ r b)
    (hq : ∀ b, q (f b) ↔ u b) :
    Since p q (m.map f) ↔ Since r u m := by
  induction m using List.reverseRecOn with
  | nil => simp only [List.map_nil, not_since_nil]
  | append_singleton m b ih =>
    rw [List.map_append, List.map_cons, List.map_nil, since_append, since_append, ih, hp, hq]

end BinderDownload
