import BinderDownload.Manager.Processes

namespace BinderDownload.Manager

open Calls

variable {α : Type} {inv : Process → Prop} {post : α → Process → Prop} {s : Process} {pid : ℤ} {child : Child}

theorem ask_rule {question : Question} {next : Bool → Program α} (hs : inv s)
    (h : ∀ yes, Along answer inv post (next yes) s) : Along answer inv post (ask question >>= next) s := by
  apply Along.perform hs
  intro a t ht
  rw [answer, Option.some.injEq] at ht
  subst ht
  exact h _

theorem stillAlive_rule {next : Bool → Program α} (hs : inv s) (hmem : pid ∈ unreaped s.log) (hpos : 0 < pid)
    (halive : Along answer inv post (next true) s)
    (hdead : Along answer inv post (next false) (s.note (.reaped pid))) :
    Along answer inv post (stillAlive pid >>= next) s := by
  apply Along.perform hs
  intro a t ht
  simp only [answer, if_pos hmem, true_and] at ht
  split_ifs at ht with hdone hzero
  · cases ht
    have hfalse : decide (a = 0) = false := by simp only [decide_eq_false_iff_not]; omega
    show Along answer inv post (next (decide (a = 0))) _
    rw [hfalse]
    exact hdead
  · cases ht
    rw [hzero]
    exact halive

section Perform

variable {next : ℤ → Program α}

theorem signal_rule {sig : Signal} (hs : inv s)
    (h : ∀ a, Along answer inv post (next a) { s with handled := sig :: s.handled }) :
    Along answer inv post (perform (.signal sig) >>= next) s := by
  apply Along.perform hs
  intro a t ht
  rw [answer, Option.some.injEq] at ht
  subst ht
  exact h a

theorem spawn_rule (hs : inv s) (hfailed : Along answer inv post (next (-1)) s)
    (hforked : ∀ pid, 0 < pid → pid ∉ unreaped s.log → s.theirs ≠ some pid →
      Along answer inv post (next pid) (s.note (.forked pid))) :
    Along answer inv post (spawn >>= next) s := by
  apply Along.perform hs
  intro a t ht
  rw [answer] at ht
  split_ifs at ht with hfail hnew
  · cases ht
    rw [hfail]
    exact hfailed
  · cases ht
    exact hforked a hnew.1 hnew.2.1 hnew.2.2

theorem waitpid_rule (hs : inv s) (hgone : pid ∉ unreaped s.log → Along answer inv post (next (-1)) s)
    (hreaped : pid ∈ unreaped s.log → Along answer inv post (next pid) (s.note (.reaped pid))) :
    Along answer inv post (perform (.waitpid pid false) >>= next) s := by
  apply Along.perform hs
  intro a t ht
  simp only [answer, Bool.false_eq_true, false_and, if_false] at ht
  split_ifs at ht with hmem ha ha
  · cases ht
    rw [ha]
    exact hreaped hmem
  · cases ht
    rw [ha]
    exact hgone hmem

theorem wait_rule (hs : inv s) (hnone : unreaped s.log = [] → Along answer inv post (next (-1)) s)
    (hreaped : ∀ pid ∈ unreaped s.log, Along answer inv post (next pid) (s.note (.reaped pid))) :
    Along answer inv post (perform .wait >>= next) s := by
  apply Along.perform hs
  intro a t ht
  rw [answer] at ht
  split_ifs at ht with hmem hno
  · cases ht
    exact hreaped a hmem
  · cases ht
    rw [hno.1]
    exact hnone hno.2

theorem kill_rule (hs : inv s) (h : ∀ a, Along answer inv post (next a) (s.note (.signaled pid))) :
    Along answer inv post (perform (.kill pid) >>= next) s := by
  apply Along.perform hs
  intro a t ht
  rw [answer, Option.some.injEq] at ht
  subst ht
  exact h a

theorem load_rule (hs : inv s) (h : Along answer inv post (next (s.pid child)) s) :
    Along answer inv post (perform (.load child) >>= next) s := by
  apply Along.perform hs
  intro a t ht
  rw [answer] at ht
  split_ifs at ht with ha
  cases ht
  rw [ha]
  exact h

theorem store_rule (hs : inv s) (h : ∀ a, Along answer inv post (next a) (s.store child pid)) :
    Along answer inv post (perform (.store child pid) >>= next) s := by
  apply Along.perform hs
  intro a t ht
  rw [answer, Option.some.injEq] at ht
  subst ht
  exact h a

theorem owns_rule (hs : inv s) (h : Along answer inv post (next (if s.gOwnServiceManager then 1 else 0)) s) :
    Along answer inv post (perform .ownsServiceManager >>= next) s := by
  apply Along.perform hs
  intro a t ht
  simp only [answer, Option.ite_none_right_eq_some, Option.some.injEq] at ht
  rw [ht.1, ← ht.2]
  exact h

theorem own_rule (hs : inv s) (h : ∀ a, Along answer inv post (next a) { s with gOwnServiceManager := true }) :
    Along answer inv post (perform .ownServiceManager >>= next) s := by
  apply Along.perform hs
  intro a t ht
  rw [answer, Option.some.injEq] at ht
  subst ht
  exact h a

end Perform

end BinderDownload.Manager
