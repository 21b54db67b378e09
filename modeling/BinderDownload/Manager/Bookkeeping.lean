import BinderDownload.Manager.Rules

namespace BinderDownload.Manager

open Calls

def Orderly (log : List Event) : Prop :=
  ∀ later pid earlier, log = later ++ .signaled pid :: earlier → pid ∈ unreaped earlier

section Log

variable {pid : ℤ} {log : List Event}

theorem orderly_cons {event : Event} (hevent : ∀ p, event ≠ .signaled p) : Orderly (event :: log) ↔ Orderly log := by
  constructor
  · intro h later p earlier heq
    exact h (event :: later) p earlier (by rw [heq, List.cons_append])
  · intro h later p earlier heq
    cases later with
    | nil =>
      rw [List.nil_append, List.cons.injEq] at heq
      exact absurd heq.1 (hevent p)
    | cons e later =>
      rw [List.cons_append, List.cons.injEq] at heq
      exact h later p earlier heq.2

@[simp] theorem orderly_nil : Orderly [] := by
  intro later p earlier heq
  cases later <;> cases heq

@[simp] theorem orderly_forked : Orderly (.forked pid :: log) ↔ Orderly log := orderly_cons (by simp)

@[simp] theorem orderly_reaped : Orderly (.reaped pid :: log) ↔ Orderly log := orderly_cons (by simp)

@[simp] theorem orderly_signaled : Orderly (.signaled pid :: log) ↔ pid ∈ unreaped log ∧ Orderly log := by
  constructor
  · intro h
    exact ⟨h [] pid log rfl, fun later p earlier heq => h (.signaled pid :: later) p earlier (by rw [heq]; rfl)⟩
  · rintro ⟨hmem, h⟩ later p earlier heq
    cases later with
    | nil =>
      cases heq
      exact hmem
    | cons e later =>
      rw [List.cons_append, List.cons.injEq] at heq
      exact h later p earlier heq.2

@[simp] theorem mem_unreaped_reaped {p : ℤ} :
    p ∈ unreaped (.reaped pid :: log) ↔ p ∈ unreaped log ∧ p ≠ pid := by
  simp [unreaped]

@[simp] theorem mem_unreaped_forked {p : ℤ} : p ∈ unreaped (.forked pid :: log) ↔ p = pid ∨ p ∈ unreaped log := by
  simp [unreaped]

end Log

namespace Process

/-- `cleanup` comes to the child. -/
def Reaches (s : Process) (child : Child) : Prop := child = .gServiceManager → s.gOwnServiceManager = true

structure Sane (s : Process) : Prop where
  positive : ∀ p ∈ unreaped s.log, 0 < p
  apart : ∀ x y, s.pid x = s.pid y → 0 < s.pid x → x = y

structure Tracked (s : Process) : Prop where
  all : ∀ p ∈ unreaped s.log, ∃ child, s.Reaches child ∧ s.pid child = p
  live : ∀ child, s.Reaches child → 0 < s.pid child → s.pid child ∈ unreaped s.log

structure Sound (s : Process) : Prop extends s.Sane where
  orderly : Orderly s.log

structure Recorded (s : Process) : Prop extends s.Sound, s.Tracked

end Process

namespace Process

section Records

variable {s : Process} {child : Child} {pid : ℤ}

theorem Sane.store (hs : s.Sane) (hpid : 0 < pid → ∀ x, x ≠ child → s.pid x ≠ pid) : (s.store child pid).Sane where
  positive := hs.positive
  apart x y hxy hx := by
    by_cases hxc : x = child
    · by_cases hyc : y = child
      · rw [hxc, hyc]
      · simp only [store_pid, hxc, Function.update_self, Function.update_of_ne hyc] at hxy hx
        exact absurd hxy.symm (hpid hx y hyc)
    · by_cases hyc : y = child
      · simp only [store_pid, hyc, Function.update_self, Function.update_of_ne hxc] at hxy hx
        exact absurd hxy (hpid (hxy ▸ hx) x hxc)
      · simp only [store_pid, Function.update_of_ne hxc, Function.update_of_ne hyc] at hxy hx
        exact hs.apart x y hxy hx

theorem Sane.clear (hs : s.Sane) : (s.store child (-1)).Sane := hs.store (fun h => by omega)

theorem Sane.reap (hs : s.Sane) : (s.note (.reaped pid)).Sane where
  positive p hp := hs.positive p (mem_unreaped_reaped.mp hp).1
  apart := hs.apart

theorem Sound.clear (hs : s.Sound) : (s.store child (-1)).Sound := ⟨hs.toSane.clear, hs.orderly⟩

theorem Sound.reap (hs : s.Sound) : (s.note (.reaped pid)).Sound := ⟨hs.toSane.reap, orderly_reaped.mpr hs.orderly⟩

theorem Sound.kill (hs : s.Sound) (hmem : pid ∈ unreaped s.log) : (s.note (.signaled pid)).Sound :=
  ⟨⟨hs.positive, hs.apart⟩, orderly_signaled.mpr ⟨hmem, hs.orderly⟩⟩

theorem Recorded.kill (hs : s.Recorded) (hmem : pid ∈ unreaped s.log) : (s.note (.signaled pid)).Recorded :=
  ⟨hs.toSound.kill hmem, hs.all, hs.live⟩

theorem Recorded.release (hs : s.Recorded) (hpos : 0 < s.pid child) :
    ((s.note (.reaped (s.pid child))).store child (-1)).Recorded where
  toSound := hs.toSound.reap.clear
  all p hp := by
    obtain ⟨hp, hne⟩ := mem_unreaped_reaped.mp hp
    obtain ⟨x, hx, rfl⟩ := hs.all p hp
    have hxc : x ≠ child := by
      rintro rfl
      exact hne rfl
    exact ⟨x, hx, by simp [hxc]⟩
  live x hx hxpos := by
    have hxc : x ≠ child := by
      rintro rfl
      simp at hxpos
    simp only [store_pid, note_pid, Function.update_of_ne hxc] at hxpos ⊢
    refine mem_unreaped_reaped.mpr ⟨hs.live x hx hxpos, fun heq => hxc (hs.apart x child heq hxpos)⟩

theorem Recorded.empty (hs : s.Recorded) (h : ∀ child, s.Reaches child → s.pid child ≤ 0) : unreaped s.log = [] := by
  apply List.eq_nil_iff_forall_not_mem.mpr
  intro p hp
  obtain ⟨child, hr, rfl⟩ := hs.all p hp
  have := hs.positive _ hp
  have := h child hr
  omega

end Records

end Process

theorem terminate_spec {s : Process} (child : Child) (hs : s.Recorded) (hr : s.Reaches child) :
    Along answer Process.Sound
      (fun _ t => t.Recorded ∧ t.gOwnServiceManager = s.gOwnServiceManager ∧ t.pid child ≤ 0 ∧
        ∀ x, x ≠ child → t.pid x = s.pid x) (terminate child) s := by
  apply load_rule hs.toSound
  split_ifs with hle
  · exact ⟨hs, rfl, hle, fun _ _ => rfl⟩
  · have hpos : 0 < s.pid child := by omega
    have hmem := hs.live child hr hpos
    apply kill_rule hs.toSound
    intro _
    have hkilled := hs.kill hmem
    apply waitpid_rule hkilled.toSound
    · exact fun hgone => absurd hmem hgone
    · intro _
      apply store_rule hkilled.toSound.reap
      intro _
      exact ⟨hkilled.release hpos, rfl, by simp, fun x hx => by simp [hx]⟩

theorem cleanup_spec {s : Process} (hs : s.Recorded) :
    Along answer Process.Sound (fun _ t => t.Sound ∧ unreaped t.log = []) cleanup s := by
  apply Along.bind
  apply (terminate_spec .gDownload hs Child.noConfusion).weaken
  rintro _ t ⟨ht, -, hdownload, -⟩
  apply Along.bind
  apply (terminate_spec .gHttp ht Child.noConfusion).weaken
  rintro _ u ⟨hu, -, hhttp, hkept⟩
  have hdownload : u.pid .gDownload ≤ 0 := by rwa [hkept .gDownload Child.noConfusion]
  apply owns_rule hu.toSound
  by_cases hown : u.gOwnServiceManager = true
  · rw [if_pos hown, if_pos (by decide)]
    apply (terminate_spec .gServiceManager hu (fun _ => hown)).weaken
    rintro _ v ⟨hv, -, hmanager, hkept⟩
    refine ⟨hv.toSound, hv.empty (fun child _ => ?_)⟩
    cases child with
    | gServiceManager => exact hmanager
    | gHttp => rwa [hkept .gHttp Child.noConfusion]
    | gDownload => rwa [hkept .gDownload Child.noConfusion]
  · rw [if_neg hown, if_neg (by decide)]
    refine ⟨hu.toSound, hu.empty (fun child hr => ?_)⟩
    cases child with
    | gServiceManager => exact absurd (hr rfl) hown
    | gHttp => exact hhttp
    | gDownload => exact hdownload

namespace Process

structure Ready (s : Process) : Prop extends s.Recorded where
  unowned : s.gOwnServiceManager = false → s.pid .gServiceManager ≤ 0

structure Departed (s : Process) (pid : ℤ) : Prop extends s.Sound where
  all : ∀ p ∈ unreaped s.log, ∃ child, s.Reaches child ∧ s.pid child = p
  live : ∀ child, s.Reaches child → 0 < s.pid child → s.pid child ∈ unreaped s.log ∨ s.pid child = pid

section Records

variable {s : Process} {child : Child} {pid : ℤ}

theorem Ready.first (hpid : s.pid = fun _ => -1) (hlog : s.log = []) : s.Ready where
  positive p hp := by simp [hlog, unreaped] at hp
  apart x y _ hx := by simp [hpid] at hx
  orderly := by simp [hlog]
  all p hp := by simp [hlog, unreaped] at hp
  live x _ hx := by simp [hpid] at hx
  unowned _ := by simp [hpid]

theorem Ready.mem (hs : s.Ready) (hpos : 0 < s.pid child) : s.Reaches child ∧ s.pid child ∈ unreaped s.log := by
  have hr : s.Reaches child := by
    rintro rfl
    by_contra hown
    have := hs.unowned (Bool.eq_false_iff.mpr hown)
    omega
  exact ⟨hr, hs.live child hr hpos⟩

theorem Ready.clear (hs : s.Ready) (hpid : s.pid child ≤ 0) (hle : pid ≤ 0) : (s.store child pid).Ready where
  toSane := hs.toSane.store (fun h => by omega)
  orderly := hs.orderly
  all p hp := by
    obtain ⟨x, hx, rfl⟩ := hs.all p hp
    have := hs.positive _ hp
    have hxc : x ≠ child := by
      rintro rfl
      omega
    exact ⟨x, hx, by simp [hxc]⟩
  live x hx hxpos := by
    by_cases hxc : x = child
    · simp only [hxc, store_pid, Function.update_self] at hxpos
      omega
    · simp only [store_pid, Function.update_of_ne hxc] at hxpos ⊢
      exact hs.live x hx hxpos
  unowned hown := by
    by_cases hxc : child = .gServiceManager
    · simp only [hxc, store_pid, Function.update_self]
      exact hle
    · simp only [store_pid, Function.update_of_ne (Ne.symm hxc)]
      exact hs.unowned hown

theorem Ready.fork (hs : s.Ready) (hpos : 0 < pid) : (s.note (.forked pid)).Sound where
  positive p hp := by
    rcases mem_unreaped_forked.mp hp with rfl | hp
    · exact hpos
    · exact hs.positive p hp
  apart := hs.apart
  orderly := orderly_forked.mpr hs.orderly

theorem Ready.enlist (hs : s.Ready) (hpos : 0 < pid) (hnew : pid ∉ unreaped s.log) :
    ((s.note (.forked pid)).store child pid).Sound where
  toSane := (hs.fork hpos).toSane.store (by
    intro _ x _ hx
    rw [note_pid] at hx
    have hmem := (hs.mem (by rwa [hx] : 0 < s.pid x)).2
    rw [hx] at hmem
    exact hnew hmem)
  orderly := orderly_forked.mpr hs.orderly

theorem Ready.adopt (hs : s.Ready) (hpid : s.pid child ≤ 0) (hpos : 0 < pid) (hnew : pid ∉ unreaped s.log) {own : Bool}
    (hown : own = true ↔ s.gOwnServiceManager = true ∨ child = .gServiceManager) :
    { (s.note (.forked pid)).store child pid with gOwnServiceManager := own }.Ready where
  toSane := ⟨(@Ready.enlist s child pid hs hpos hnew).positive, (@Ready.enlist s child pid hs hpos hnew).apart⟩
  orderly := orderly_forked.mpr hs.orderly
  all p hp := by
    rcases mem_unreaped_forked.mp hp with rfl | hp
    · exact ⟨child, fun h => hown.mpr (.inr h), by simp⟩
    · obtain ⟨x, hx, rfl⟩ := hs.all p hp
      have := hs.positive _ hp
      have hxc : x ≠ child := by
        rintro rfl
        omega
      exact ⟨x, fun h => hown.mpr (.inl (hx h)), by simp [hxc]⟩
  live x hx hxpos := by
    by_cases hxc : x = child
    · simp [hxc]
    · simp only [store_pid, note_pid, Function.update_of_ne hxc] at hxpos ⊢
      exact mem_unreaped_forked.mpr (.inr (hs.mem hxpos).2)
  unowned h := by
    rw [← Bool.not_eq_true] at h
    have hxc : child ≠ .gServiceManager := fun hc => h (hown.mpr (.inr hc))
    simp only [store_pid, note_pid, Function.update_of_ne (Ne.symm hxc)]
    apply hs.unowned
    rw [← Bool.not_eq_true]
    exact fun ho => h (hown.mpr (.inl ho))

theorem Ready.release (hs : s.Ready) (hpos : 0 < s.pid child) :
    ((s.note (.reaped (s.pid child))).store child (-1)).Ready where
  toRecorded := hs.toRecorded.release hpos
  unowned h := by
    by_cases hxc : child = .gServiceManager
    · simp [hxc]
    · simp only [store_pid, note_pid, Function.update_of_ne (Ne.symm hxc)]
      exact hs.unowned h

theorem Ready.depart (hs : s.Ready) : (s.note (.reaped pid)).Departed pid where
  toSound := hs.toSound.reap
  all p hp := hs.all p (mem_unreaped_reaped.mp hp).1
  live x hx hxpos := by
    by_cases hp : s.pid x = pid
    · exact .inr hp
    · exact .inl (mem_unreaped_reaped.mpr ⟨hs.live x hx hxpos, hp⟩)

theorem Departed.clear (hs : s.Departed pid) (hpid : s.pid child = pid) (hmem : pid ∉ unreaped s.log) :
    (s.store child (-1)).Departed pid where
  toSound := hs.toSound.clear
  all p hp := by
    obtain ⟨x, hx, rfl⟩ := hs.all p hp
    have hxc : x ≠ child := by
      rintro rfl
      exact hmem (hpid ▸ hp)
    exact ⟨x, hx, by simp [hxc]⟩
  live x hx hxpos := by
    by_cases hxc : x = child
    · simp [hxc] at hxpos
    · simp only [store_pid, Function.update_of_ne hxc] at hxpos ⊢
      exact hs.live x hx hxpos

theorem Departed.recorded (hs : s.Departed pid) (h : ∀ x, s.pid x ≠ pid) : s.Recorded where
  toSound := hs.toSound
  all := hs.all
  live x hx hxpos := (hs.live x hx hxpos).resolve_right (h x)

end Records

end Process

variable {s : Process} {child : Child}

theorem awaitServiceManager_spec (rounds : ℕ) (hs : s.Ready) (hpos : 0 < s.pid .gServiceManager) :
    Along answer Process.Sound (fun _ t => t.Ready ∧ ∀ x, x ≠ .gServiceManager → t.pid x = s.pid x)
      (awaitServiceManager rounds) s := by
  induction rounds with
  | zero => exact ⟨hs, fun _ _ => rfl⟩
  | succ rounds ih =>
    apply load_rule hs.toSound
    apply stillAlive_rule hs.toSound (hs.mem hpos).2 hpos
    · apply ask_rule hs.toSound
      intro up
      cases up with
      | true => exact ⟨hs, fun _ _ => rfl⟩
      | false => exact ih
    · apply store_rule hs.toSound.reap
      intro _
      exact ⟨hs.release hpos, fun x hx => by simp [hx]⟩

theorem ensureServiceManager_spec (hs : s.Ready) (hpid : s.pid .gServiceManager ≤ 0) :
    Along answer Process.Sound (fun _ t => t.Ready ∧ ∀ x, x ≠ .gServiceManager → t.pid x = s.pid x)
      ensureServiceManager s := by
  apply ask_rule hs.toSound
  intro up
  cases up with
  | true => exact ⟨hs, fun _ _ => rfl⟩
  | false =>
    apply ask_rule hs.toSound
    intro found
    cases found with
    | false => exact ⟨hs, fun _ _ => rfl⟩
    | true =>
      apply spawn_rule hs.toSound
      · apply store_rule hs.toSound
        intro _
        exact ⟨hs.clear hpid (by decide), fun x hx => by simp [hx]⟩
      · intro pid hpos hnew _
        apply store_rule (hs.fork hpos)
        intro _
        rw [if_neg (by omega)]
        apply own_rule (hs.enlist hpos hnew)
        intro _
        apply (awaitServiceManager_spec 20 (hs.adopt hpid hpos hnew (by simp)) (by simpa using hpos)).weaken
        rintro _ t ⟨ht, hkept⟩
        exact ⟨ht, fun x hx => by simp [hkept x hx, hx]⟩

theorem awaitService_spec (rounds : ℕ) (hs : s.Ready) (hpos : 0 < s.pid child) :
    Along answer Process.Sound (fun _ t => t.Ready ∧ ∀ x, x ≠ child → t.pid x = s.pid x)
      (awaitService child rounds) s := by
  induction rounds with
  | zero => exact ⟨hs, fun _ _ => rfl⟩
  | succ rounds ih =>
    apply load_rule hs.toSound
    apply stillAlive_rule hs.toSound (hs.mem hpos).2 hpos
    · apply ask_rule hs.toSound
      intro registered
      cases registered with
      | true => exact ⟨hs, fun _ _ => rfl⟩
      | false => exact ih
    · apply store_rule hs.toSound.reap
      intro _
      exact ⟨hs.release hpos, fun x hx => by simp [hx]⟩

theorem startService_spec (hs : s.Ready) (hpid : s.pid child ≤ 0) (hchild : child ≠ .gServiceManager) :
    Along answer Process.Sound (fun _ t => t.Ready ∧ ∀ x, x ≠ child → t.pid x = s.pid x) (startService child) s := by
  apply ask_rule hs.toSound
  intro self
  cases self with
  | false => exact ⟨hs, fun _ _ => rfl⟩
  | true =>
    apply spawn_rule hs.toSound
    · apply store_rule hs.toSound
      intro _
      exact ⟨hs.clear hpid (by decide), fun x hx => by simp [hx]⟩
    · intro pid hpos hnew _
      apply store_rule (hs.fork hpos)
      intro _
      rw [if_neg (by omega)]
      have hadopt : ((s.note (.forked pid)).store child pid).Ready := hs.adopt hpid hpos hnew (by simp [hchild])
      apply (awaitService_spec 40 hadopt (by simpa using hpos)).weaken
      rintro _ t ⟨ht, hkept⟩
      exact ⟨ht, fun x hx => by simp [hkept x hx, hx]⟩

theorem startServices_spec (hs : s.Ready) (hhttp : s.pid .gHttp ≤ 0) (hdownload : s.pid .gDownload ≤ 0) :
    Along answer Process.Sound (fun _ t => t.Ready) startServices s := by
  apply Along.bind
  apply (startService_spec hs hhttp Child.noConfusion).weaken
  rintro http t ⟨ht, hkept⟩
  cases http with
  | false => exact ht
  | true =>
    have hdownload : t.pid .gDownload ≤ 0 := by rwa [hkept .gDownload Child.noConfusion]
    exact (startService_spec ht hdownload Child.noConfusion).weaken (fun _ u hu => hu.1)

theorem forget_spec {pid : ℤ} (hs : s.Departed pid) (hmem : pid ∉ unreaped s.log) (hpos : 0 < pid) :
    Along answer Process.Sound
      (fun _ t => t.Departed pid ∧ t.log = s.log ∧ t.pid child ≠ pid ∧ ∀ x, s.pid x ≠ pid → t.pid x ≠ pid)
      (forget child pid) s := by
  apply load_rule hs.toSound
  split_ifs with hpid
  · apply store_rule hs.toSound
    intro _
    refine ⟨hs.clear hpid.symm hmem, rfl, by simp; omega, fun x hx => ?_⟩
    by_cases hxc : x = child
    · simp only [hxc, Process.store_pid, Function.update_self]
      omega
    · simpa [hxc] using hx
  · exact ⟨hs, rfl, fun h => hpid h.symm, fun _ hx => hx⟩

theorem supervise_spec (hs : s.Ready) :
    Along answer Process.Sound (fun _ t => t.Sound ∧ unreaped t.log = []) supervise s := by
  apply wait_rule hs.toSound
  · intro _
    apply Along.bind
    exact (cleanup_spec hs.toRecorded).weaken (fun _ _ h => h)
  · intro pid hmem
    have hpos := hs.positive pid hmem
    have hgone : pid ∉ unreaped (.reaped pid :: s.log) := fun h => (mem_unreaped_reaped.mp h).2 rfl
    rw [if_neg (by omega)]
    apply Along.bind
    apply (forget_spec hs.depart hgone hpos).weaken
    rintro _ t ⟨ht, hlogt, hmanager, -⟩
    apply Along.bind
    apply (forget_spec ht (by rwa [hlogt]) hpos).weaken
    rintro _ u ⟨hu, hlogu, hhttp, hkeptu⟩
    apply Along.bind
    apply (forget_spec hu (by rwa [hlogu, hlogt]) hpos).weaken
    rintro _ v ⟨hv, -, hdownload, hkeptv⟩
    apply Along.bind
    have hrecorded : v.Recorded := by
      apply hv.recorded
      intro x
      cases x with
      | gServiceManager => exact hkeptv _ (hkeptu _ hmanager)
      | gHttp => exact hkeptv _ hhttp
      | gDownload => exact hdownload
    exact (cleanup_spec hrecorded).weaken (fun _ _ h => h)

theorem runManager_spec (hpid : s.pid = fun _ => -1) (hlog : s.log = []) :
    Along answer Process.Sound (fun _ t => t.Sound ∧ unreaped t.log = []) runManager s := by
  have hs (handled : List Signal) : { s with handled }.Ready := Process.Ready.first hpid hlog
  apply ask_rule (hs s.handled).toSound
  intro ready
  cases ready with
  | false => exact ⟨(hs s.handled).toSound, by rw [hlog]; rfl⟩
  | true =>
    apply signal_rule (hs s.handled).toSound
    intro _
    apply signal_rule (hs _).toSound
    intro _
    apply Along.bind
    apply (ensureServiceManager_spec (hs _) (by simp [hpid])).weaken
    rintro up t ⟨ht, hkept⟩
    cases up with
    | false =>
      apply Along.bind
      exact (cleanup_spec ht.toRecorded).weaken (fun _ _ h => h)
    | true =>
      apply Along.bind
      apply (startServices_spec ht (by simp [hkept, hpid]) (by simp [hkept, hpid])).weaken
      rintro started u hu
      cases started with
      | false =>
        apply Along.bind
        exact (cleanup_spec hu.toRecorded).weaken (fun _ _ h => h)
      | true => exact supervise_spec hu

theorem onSignal_spec (sig : Signal) (hs : s.Recorded) :
    Along answer Process.Sound (fun _ t => t.Sound ∧ unreaped t.log = []) (onSignal sig) s := by
  apply Along.bind
  exact (cleanup_spec hs).weaken (fun _ _ h => h)

end BinderDownload.Manager
