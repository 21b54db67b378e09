import BinderDownload.Manager.Ownership

namespace BinderDownload.Manager

open Calls

def Timely (m : Machine) (move : Move) : Prop := ∀ sig, move = .signal sig → m.process.Tracked

namespace Process

/-- A child that `cleanup` does not come to. -/
def Missed (s : Process) : Prop := ∃ p ∈ unreaped s.log, ∀ child, s.Reaches child → s.pid child ≠ p

/-- A pid of a child that has been reaped, and that `cleanup` will signal. -/
def Stale (s : Process) (child : Child) : Prop := s.Reaches child ∧ 0 < s.pid child ∧ s.pid child ∉ unreaped s.log

structure Doomed (s : Process) : Prop extends s.Sane where
  fault : ¬Orderly s.log ∨ s.Missed ∨ ∃ child, s.Stale child

section Records

variable {s : Process} {child : Child}

theorem Sane.doomed (hs : s.Sane) (h : ¬s.Tracked) : s.Doomed := by
  refine ⟨hs, .inr ?_⟩
  by_contra hnot
  rw [not_or, Missed, not_exists] at hnot
  obtain ⟨hmissed, hstale⟩ := hnot
  apply h
  constructor
  · intro p hp
    by_contra hno
    exact hmissed p ⟨hp, fun child hr heq => hno ⟨child, hr, heq⟩⟩
  · intro child hr hpos
    by_contra hno
    exact hstale ⟨child, hr, hpos, hno⟩

theorem Doomed.kill (pid : ℤ) (hs : s.Doomed) : (s.note (.signaled pid)).Doomed where
  positive := hs.positive
  apart := hs.apart
  fault := by
    rcases hs.fault with h | h | h
    · exact .inl fun ho => h (orderly_signaled.mp ho).2
    · exact .inr (.inl h)
    · exact .inr (.inr h)

theorem Doomed.reap (hs : s.Doomed) (hr : s.Reaches child) : (s.note (.reaped (s.pid child))).Doomed where
  toSane := hs.toSane.reap
  fault := by
    rcases hs.fault with h | ⟨p, hp, hno⟩ | ⟨x, hx, hpos, hgone⟩
    · exact .inl fun ho => h (orderly_reaped.mp ho)
    · exact .inr (.inl ⟨p, mem_unreaped_reaped.mpr ⟨hp, (hno child hr).symm⟩, hno⟩)
    · exact .inr (.inr ⟨x, hx, hpos, fun h => hgone (mem_unreaped_reaped.mp h).1⟩)

theorem Doomed.release (hs : s.Doomed) (hr : s.Reaches child) (hmem : s.pid child ∈ unreaped s.log) :
    ((s.note (.reaped (s.pid child))).store child (-1)).Doomed where
  toSane := hs.toSane.reap.clear
  fault := by
    rcases hs.fault with h | ⟨p, hp, hno⟩ | ⟨x, hx, hpos, hgone⟩
    · exact .inl fun ho => h (orderly_reaped.mp ho)
    · refine .inr (.inl ⟨p, mem_unreaped_reaped.mpr ⟨hp, (hno child hr).symm⟩, fun x hx => ?_⟩)
      by_cases hxc : x = child
      · have := hs.positive p hp
        simp only [hxc, store_pid, Function.update_self]
        omega
      · simpa [hxc] using hno x hx
    · have hxc : x ≠ child := by
        rintro rfl
        exact hgone hmem
      refine .inr (.inr ⟨x, hx, by simpa [hxc] using hpos, fun h => hgone ?_⟩)
      simp only [store_pid, note_pid, Function.update_of_ne hxc, store_log, note_log, mem_unreaped_reaped] at h
      exact h.1

theorem Doomed.astray (hs : s.Sane) (h : ¬Orderly s.log) : s.Doomed := ⟨hs, .inl h⟩

end Records

end Process

theorem terminate_doomed {s : Process} (child : Child) (hs : s.Doomed) (hr : s.Reaches child) :
    Along answer Process.Doomed
      (fun _ t => t.Doomed ∧ t.gOwnServiceManager = s.gOwnServiceManager ∧ t.pid child ≤ 0 ∧
        ∀ x, x ≠ child → t.pid x = s.pid x) (terminate child) s := by
  apply load_rule hs
  split_ifs with hle
  · exact ⟨hs, rfl, hle, fun _ _ => rfl⟩
  · apply kill_rule hs
    intro _
    have hkilled := hs.kill (s.pid child)
    apply waitpid_rule hkilled
    · intro hgone
      have hastray : ¬Orderly (.signaled (s.pid child) :: s.log) := fun ho => hgone (orderly_signaled.mp ho).1
      apply store_rule hkilled
      intro _
      refine ⟨.astray hkilled.toSane.clear hastray, rfl, by simp, fun x hx => by simp [hx]⟩
    · intro hmem
      apply store_rule (hkilled.reap hr)
      intro _
      exact ⟨hkilled.release hr hmem, rfl, by simp, fun x hx => by simp [hx]⟩

def Process.Cleared (s : Process) : Prop := unreaped s.log = [] ∧ Orderly s.log

theorem Process.Doomed.not_cleared {s : Process} (hs : s.Doomed) (h : ∀ child, s.Reaches child → s.pid child ≤ 0) :
    ¬s.Cleared := by
  rintro ⟨hnone, horderly⟩
  rcases hs.fault with hf | ⟨p, hp, -⟩ | ⟨x, hx, hpos, -⟩
  · exact hf horderly
  · rw [hnone] at hp
    cases hp
  · have := h x hx
    omega

theorem cleanup_doomed {s : Process} (hs : s.Doomed) :
    Along answer Process.Doomed (fun _ t => ¬t.Cleared) cleanup s := by
  apply Along.bind
  apply (terminate_doomed .gDownload hs Child.noConfusion).weaken
  rintro _ t ⟨ht, -, hdownload, -⟩
  apply Along.bind
  apply (terminate_doomed .gHttp ht Child.noConfusion).weaken
  rintro _ u ⟨hu, -, hhttp, hkept⟩
  have hdownload : u.pid .gDownload ≤ 0 := by rwa [hkept .gDownload Child.noConfusion]
  apply owns_rule hu
  by_cases hown : u.gOwnServiceManager = true
  · rw [if_pos hown, if_pos (by decide)]
    apply (terminate_doomed .gServiceManager hu (fun _ => hown)).weaken
    rintro _ v ⟨hv, -, hmanager, hkept⟩
    apply hv.not_cleared
    intro child _
    cases child with
    | gServiceManager => exact hmanager
    | gHttp => rwa [hkept .gHttp Child.noConfusion]
    | gDownload => rwa [hkept .gDownload Child.noConfusion]
  · rw [if_neg hown, if_neg (by decide)]
    apply hu.not_cleared
    intro child hr
    cases child with
    | gServiceManager => exact absurd (hr rfl) hown
    | gHttp => exact hhttp
    | gDownload => exact hdownload

theorem onSignal_doomed {s : Process} (sig : Signal) (hs : s.Doomed) :
    Along answer Process.Doomed (fun _ t => ¬t.Cleared) (onSignal sig) s := by
  apply Along.bind
  exact (cleanup_doomed hs).weaken (fun _ _ h => h)

def Lost (m : Machine) : Prop := Along answer Process.Doomed (fun _ t => ¬t.Cleared) m.control m.process

section Steps

variable {m n : Machine} {move : Move} {sig : Signal}

theorem OnCourse.interrupted (hm : OnCourse m) (h : step m (.signal sig) = some n) : m.process.Sound := by
  obtain ⟨⟨request, next, hcontrol⟩, -⟩ := step_signal h
  rw [OnCourse, hcontrol] at hm
  exact hm.1

theorem OnCourse.step (hm : OnCourse m) (hmove : Timely m move) (h : Manager.step m move = some n) : OnCourse n := by
  cases move with
  | answered a => exact hm.answered h
  | signal sig =>
    have hsound := hm.interrupted h
    obtain ⟨-, rfl⟩ := step_signal h
    exact onSignal_spec sig ⟨hsound, hmove sig rfl⟩

theorem Lost.step (hm : Lost m) (h : Manager.step m move = some n) : Lost n := by
  cases move with
  | answered a => exact Along.resume hm (step_answered h).1
  | signal sig =>
    obtain ⟨⟨request, next, hcontrol⟩, rfl⟩ := step_signal h
    rw [Lost, hcontrol] at hm
    exact onSignal_doomed sig hm.1

theorem OnCourse.untimely (hm : OnCourse m) (hmove : ¬Timely m move) (h : Manager.step m move = some n) : Lost n := by
  cases move with
  | answered a => exact absurd (fun _ => Move.noConfusion) hmove
  | signal sig =>
    have hsane := (hm.interrupted h).toSane
    obtain ⟨-, rfl⟩ := step_signal h
    apply onSignal_doomed
    apply hsane.doomed
    intro htracked
    apply hmove
    rintro sig' -
    exact htracked

end Steps

theorem run_onCourse {theirs : Option ℤ} {moves : List Move} {m : Machine}
    (hrun : run step (start theirs) moves = some m) (htimely : Obeys step Timely (start theirs) moves) : OnCourse m :=
  run_invariant (fun hs hmove hstep => hs.step hmove hstep) (start_onCourse theirs) hrun htimely

theorem onSignal_clears {theirs : Option ℤ} {moves : List Move} {m : Machine} {code : ℤ}
    (hrun : run step (start theirs) moves = some m) (hexit : m.control.result = some code) :
    m.process.Cleared ↔ Obeys step Timely (start theirs) moves := by
  constructor
  · intro hcleared
    by_contra hbroken
    obtain ⟨bs, a, cs, u, rfl, hbs, hobeys, hbreak⟩ := Obeys.breaks hrun hbroken
    rw [run_append hbs] at hrun
    obtain ⟨v, hv, hcs⟩ := run_cons hrun
    have hstep : ∀ {s a t}, Lost s → True → step s a = some t → Lost t := fun hs _ h => hs.step h
    have hlost : Lost m := run_invariant hstep ((run_onCourse hbs hobeys).untimely hbreak hv) hcs Obeys.always
    exact Along.returned hlost hexit hcleared
  · intro htimely
    obtain ⟨hsound, hnone⟩ := Along.returned (run_onCourse hrun htimely) hexit
    exact ⟨hnone, hsound.orderly⟩

def stopped : List Move :=
  [1, 0, 0, 1, 1, 7, 0, 7, 0, 1, 1, 8, 0, 8, 0, 1].map .answered ++
    .signal .sigint :: [8, 0, 8, 0, 7, 0, 7, 0, 0].map .answered

theorem onSignal_clears_stopped :
    ∃ m, run step (start (some 5)) stopped = some m ∧ m.control.result = some 130 ∧
      (m.process.Cleared ↔ Obeys step Timely (start (some 5)) stopped) ∧ m.process.Cleared := by
  have hexit : (run step (start (some 5)) stopped).bind (fun m => m.control.result) = some 130 := by decide +kernel
  have hlog : (run step (start (some 5)) stopped).map (fun m => m.process.log) =
      some [.reaped 7, .signaled 7, .reaped 8, .signaled 8, .forked 8, .forked 7] := by decide +kernel
  cases hrun : run step (start (some 5)) stopped with
  | none =>
    rw [hrun] at hexit
    cases hexit
  | some m =>
    rw [hrun] at hexit hlog
    rw [Option.map_some, Option.some.injEq] at hlog
    refine ⟨m, rfl, hexit, onSignal_clears hrun hexit, ?_⟩
    rw [Process.Cleared, hlog]
    exact ⟨by decide, by simp [unreaped]⟩

def forkInterrupted : List Move :=
  [1, 0, 0, 0, 1, 7].map .answered ++ .signal .sigint :: [-1, -1, 0].map .answered

theorem onSignal_orphans :
    ∃ m, run step (start none) forkInterrupted = some m ∧ m.control.result = some 130 ∧
      m.process.log = [.forked 7] ∧ ¬m.process.Cleared := by
  have hexit : (run step (start none) forkInterrupted).bind (fun m => m.control.result) = some 130 := by decide +kernel
  have hlog : (run step (start none) forkInterrupted).map (fun m => m.process.log) = some [.forked 7] := by
    decide +kernel
  cases hrun : run step (start none) forkInterrupted with
  | none =>
    rw [hrun] at hexit
    cases hexit
  | some m =>
    rw [hrun] at hexit hlog
    rw [Option.map_some, Option.some.injEq] at hlog
    refine ⟨m, rfl, hexit, hlog, ?_⟩
    rw [Process.Cleared, hlog]
    exact fun h => absurd h.1 (by decide)

end BinderDownload.Manager
