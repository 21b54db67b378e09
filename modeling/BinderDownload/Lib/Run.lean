import Mathlib

/-!
Machines that take labelled steps. A run takes the steps of a list one after the other; a rule says in
which states a step may be taken.
-/

namespace BinderDownload

variable {σ α : Type} {step : σ → α → Option σ} {rule : σ → α → Prop} {inv : σ → Prop} {s t u : σ} {a : α}
  {as bs : List α}

def run (step : σ → α → Option σ) (s : σ) : List α → Option σ
  | [] => some s
  | a :: as => (step s a).bind (fun t => run step t as)

def Obeys (step : σ → α → Option σ) (rule : σ → α → Prop) (s : σ) : List α → Prop
  | [] => True
  | a :: as => rule s a ∧ ∀ t, step s a = some t → Obeys step rule t as

theorem run_cons (h : run step s (a :: as) = some u) : ∃ t, step s a = some t ∧ run step t as = some u :=
  Option.bind_eq_some_iff.mp h

theorem run_append (h : run step s as = some t) : run step s (as ++ bs) = run step t bs := by
  induction as generalizing s with
  | nil => rw [← Option.some.inj h, List.nil_append]
  | cons a as ih =>
    obtain ⟨v, hv, hrun⟩ := run_cons h
    rw [List.cons_append, run, hv]
    exact ih hrun

theorem Obeys.append (h : run step s as = some t) (has : Obeys step rule s as) (hbs : Obeys step rule t bs) :
    Obeys step rule s (as ++ bs) := by
  induction as generalizing s with
  | nil =>
    rw [← Option.some.inj h] at hbs
    exact hbs
  | cons a as ih =>
    obtain ⟨v, hv, hrun⟩ := run_cons h
    refine ⟨has.1, fun w hw => ?_⟩
    rw [hv] at hw
    cases hw
    exact ih hrun (has.2 v hv)

theorem Obeys.split (h : run step s as = some t) (hobeys : Obeys step rule s (as ++ bs)) :
    Obeys step rule s as ∧ Obeys step rule t bs := by
  induction as generalizing s with
  | nil =>
    cases h
    exact ⟨trivial, hobeys⟩
  | cons a as ih =>
    obtain ⟨v, hv, hrun⟩ := run_cons h
    obtain ⟨has, hbs⟩ := ih hrun (hobeys.2 v hv)
    refine ⟨⟨hobeys.1, fun w hw => ?_⟩, hbs⟩
    rw [hv] at hw
    cases hw
    exact has

theorem Obeys.both {rule' : σ → α → Prop} (h : Obeys step rule s as) (h' : Obeys step rule' s as) :
    Obeys step (fun s a => rule s a ∧ rule' s a) s as := by
  induction as generalizing s with
  | nil => trivial
  | cons a as ih => exact ⟨⟨h.1, h'.1⟩, fun t ht => ih (h.2 t ht) (h'.2 t ht)⟩

theorem Obeys.always : Obeys step (fun _ _ => True) s as := by
  induction as generalizing s with
  | nil => trivial
  | cons a as ih => exact ⟨trivial, fun t _ => ih⟩

theorem Obeys.breaks (h : run step s as = some t) (has : ¬Obeys step rule s as) :
    ∃ bs a cs u, as = bs ++ a :: cs ∧ run step s bs = some u ∧ Obeys step rule s bs ∧ ¬rule u a := by
  induction as generalizing s with
  | nil => exact absurd trivial has
  | cons a as ih =>
    by_cases ha : rule s a
    · obtain ⟨v, hv, hrun⟩ := run_cons h
      have hlater : ¬Obeys step rule v as := by
        intro hlater
        apply has
        refine ⟨ha, fun w hw => ?_⟩
        rw [hv] at hw
        cases hw
        exact hlater
      obtain ⟨bs, b, cs, u, rfl, hbs, hobeys, hbreak⟩ := ih hrun hlater
      refine ⟨a :: bs, b, cs, u, rfl, by rw [run, hv]; exact hbs, ⟨ha, fun w hw => ?_⟩, hbreak⟩
      rw [hv] at hw
      cases hw
      exact hobeys
    · exact ⟨[], a, as, s, rfl, rfl, trivial, ha⟩

instance Obeys.decidable [∀ s a, Decidable (rule s a)] : ∀ (s : σ) (as : List α), Decidable (Obeys step rule s as)
  | _, [] => isTrue trivial
  | s, a :: as =>
    match h : step s a with
    | none => decidable_of_iff (rule s a) (by simp [Obeys, h])
    | some t =>
      have := Obeys.decidable t as
      decidable_of_iff (rule s a ∧ Obeys step rule t as) (by simp [Obeys, h])

theorem run_invariant (hstep : ∀ {s a t}, inv s → rule s a → step s a = some t → inv t) (hs : inv s)
    (hrun : run step s as = some t) (has : Obeys step rule s as) : inv t := by
  induction as generalizing s with
  | nil =>
    rw [← Option.some.inj hrun]
    exact hs
  | cons a as ih =>
    obtain ⟨v, hv, hrun⟩ := run_cons hrun
    exact ih (hstep hs has.1 hv) hrun (has.2 v hv)

theorem Obeys.implied {rule' : σ → α → Prop} (hstep : ∀ {s a t}, inv s → rule s a → step s a = some t → inv t)
    (hrule : ∀ {s a t}, inv s → rule s a → step s a = some t → rule' s a) (hs : inv s)
    (hrun : run step s as = some t) (has : Obeys step rule s as) : Obeys step rule' s as := by
  induction as generalizing s with
  | nil => trivial
  | cons a as ih =>
    obtain ⟨v, hv, hrun⟩ := run_cons hrun
    refine ⟨hrule hs has.1 hv, fun w hw => ?_⟩
    rw [hv] at hw
    cases hw
    exact ih (hstep hs has.1 hv) hrun (has.2 v hv)

end BinderDownload
