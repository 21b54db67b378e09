import BinderDownload.Manager.Bookkeeping

namespace BinderDownload.Manager

open Calls

def forks : List Event → List ℤ
  | [] => []
  | .forked pid :: log => pid :: forks log
  | .reaped _ :: log => forks log
  | .signaled _ :: log => forks log

def reaps : List Event → List ℤ
  | [] => []
  | .forked _ :: log => reaps log
  | .reaped pid :: log => pid :: reaps log
  | .signaled _ :: log => reaps log

theorem mem_forks_append {pid : ℤ} {later earlier : List Event} (h : pid ∈ forks earlier) :
    pid ∈ forks (later ++ earlier) := by
  induction later with
  | nil => exact h
  | cons event later ih =>
    cases event with
    | forked p => exact List.mem_cons_of_mem p ih
    | reaped p => exact ih
    | signaled p => exact ih

theorem unreaped_forked {pid : ℤ} {log : List Event} (h : pid ∈ unreaped log) : pid ∈ forks log := by
  induction log with
  | nil => cases h
  | cons event log ih =>
    cases event with
    | forked p =>
      rcases List.mem_cons.mp h with rfl | h
      · exact List.mem_cons_self
      · exact List.mem_cons_of_mem p (ih h)
    | reaped p => exact ih (mem_unreaped_reaped.mp h).1
    | signaled p => exact ih h

structure Process.Lawful (s : Process) : Prop where
  balance : (forks s.log).Perm (reaps s.log ++ unreaped s.log)
  nodup : (unreaped s.log).Nodup
  others : ∀ pid ∈ forks s.log, s.theirs ≠ some pid

theorem Process.Lawful.reap {s : Process} {pid : ℤ} (hs : s.Lawful) (hmem : pid ∈ unreaped s.log) :
    (s.note (.reaped pid)).Lawful where
  balance := by
    have herase : (unreaped s.log).Perm (pid :: unreaped (.reaped pid :: s.log)) := by
      rw [unreaped, ← hs.nodup.erase_eq_filter]
      exact List.perm_cons_erase hmem
    exact (hs.balance.trans (herase.append_left _)).trans List.perm_middle
  nodup := hs.nodup.filter _
  others := hs.others

theorem Process.Lawful.fork {s : Process} {pid : ℤ} (hs : s.Lawful) (hnew : pid ∉ unreaped s.log)
    (htheirs : s.theirs ≠ some pid) : (s.note (.forked pid)).Lawful where
  balance := (hs.balance.cons pid).trans List.perm_middle.symm
  nodup := List.nodup_cons.mpr ⟨hnew, hs.nodup⟩
  others p hp := by
    rcases List.mem_cons.mp hp with rfl | hp
    · exact htheirs
    · exact hs.others p hp

theorem answer_lawful {s t : Process} {request : Call} {a : ℤ} (hs : s.Lawful) (h : answer s request a = some t) :
    t.Lawful ∧ t.theirs = s.theirs := by
  cases request with
  | ask question =>
    cases h
    exact ⟨hs, rfl⟩
  | signal sig =>
    cases h
    exact ⟨⟨hs.balance, hs.nodup, hs.others⟩, rfl⟩
  | fork =>
    rw [answer] at h
    split_ifs at h with hfail hnew
    · cases h
      exact ⟨hs, rfl⟩
    · cases h
      exact ⟨hs.fork hnew.2.1 hnew.2.2, rfl⟩
  | waitpid pid nohang =>
    rw [answer] at h
    split_ifs at h with hmem
    · cases h
      exact ⟨hs.reap hmem, rfl⟩
    · cases h
      exact ⟨hs, rfl⟩
    · cases h
      exact ⟨hs, rfl⟩
  | wait =>
    rw [answer] at h
    split_ifs at h with hmem
    · cases h
      exact ⟨hs.reap hmem, rfl⟩
    · cases h
      exact ⟨hs, rfl⟩
  | kill pid =>
    cases h
    exact ⟨⟨hs.balance, hs.nodup, hs.others⟩, rfl⟩
  | load child =>
    rw [answer] at h
    split_ifs at h
    cases h
    exact ⟨hs, rfl⟩
  | store child pid =>
    cases h
    exact ⟨⟨hs.balance, hs.nodup, hs.others⟩, rfl⟩
  | ownsServiceManager =>
    simp only [answer, Option.ite_none_right_eq_some, Option.some.injEq] at h
    rw [← h.2]
    exact ⟨hs, rfl⟩
  | ownServiceManager =>
    cases h
    exact ⟨⟨hs.balance, hs.nodup, hs.others⟩, rfl⟩

section Steps

variable {m n : Machine} {a : ℤ} {sig : Signal}

theorem step_answered (h : step m (.answered a) = some n) :
    m.control.resume answer m.process a = some (n.process, n.control) ∧ n.blocked = m.blocked := by
  obtain ⟨t, ht, rfl⟩ := Option.map_eq_some_iff.mp h
  exact ⟨ht, rfl⟩

theorem step_signal (h : step m (.signal sig) = some n) :
    (∃ request next, m.control = .call request next) ∧
      n = { m with control := onSignal sig, blocked := sig :: m.blocked } := by
  rw [step] at h
  split at h
  · cases h
  · rename_i request next heq
    split_ifs at h
    cases h
    exact ⟨⟨request, next, heq⟩, rfl⟩

theorem step_lawful {move : Move} (hm : m.process.Lawful) (h : step m move = some n) :
    n.process.Lawful ∧ n.process.theirs = m.process.theirs := by
  cases move with
  | answered a =>
    have hanswer := (step_answered h).1
    cases hc : m.control with
    | pure value => simp [hc, resume] at hanswer
    | call request next =>
      rw [hc] at hanswer
      obtain ⟨t, ht, heq⟩ := Option.map_eq_some_iff.mp hanswer
      rw [Prod.mk.injEq] at heq
      rw [← heq.1]
      exact answer_lawful hm ht
  | signal sig =>
    obtain ⟨-, rfl⟩ := step_signal h
    exact ⟨hm, rfl⟩

end Steps

theorem start_lawful (theirs : Option ℤ) : (start theirs).process.Lawful where
  balance := List.Perm.refl _
  nodup := List.nodup_nil
  others _ h := by cases h

theorem run_lawful {theirs : Option ℤ} {moves : List Move} {m : Machine}
    (hrun : run step (start theirs) moves = some m) : m.process.Lawful ∧ m.process.theirs = theirs := by
  apply @run_invariant _ _ step (fun _ _ => True) (fun m => m.process.Lawful ∧ m.process.theirs = theirs) _ _ _ _ _ hrun
    Obeys.always
  · rintro s a t ⟨hs, htheirs⟩ - hstep
    obtain ⟨ht, heq⟩ := step_lawful hs hstep
    exact ⟨ht, heq.trans htheirs⟩
  · exact ⟨start_lawful theirs, rfl⟩

def OnCourse (m : Machine) : Prop :=
  Along answer Process.Sound (fun _ t => t.Sound ∧ unreaped t.log = []) m.control m.process

theorem start_onCourse (theirs : Option ℤ) : OnCourse (start theirs) := runManager_spec rfl rfl

theorem OnCourse.answered {m n : Machine} {a : ℤ} (hm : OnCourse m) (h : step m (.answered a) = some n) : OnCourse n :=
  Along.resume hm (step_answered h).1

theorem runManager_owns {theirs : Option ℤ} {moves : List Move} {m : Machine} {code : ℤ}
    (hrun : run step (start theirs) moves = some m)
    (hquiet : Obeys step (fun _ move => ∀ sig, move ≠ .signal sig) (start theirs) moves)
    (hreturned : m.control.result = some code) :
    (forks m.process.log).Perm (reaps m.process.log) ∧
      ∀ later pid earlier, m.process.log = later ++ .signaled pid :: earlier →
        pid ∈ unreaped earlier ∧ theirs ≠ some pid := by
  have hcourse : OnCourse m := by
    apply run_invariant _ (start_onCourse theirs) hrun hquiet
    intro s a t hs hmove hstep
    cases a with
    | answered a => exact hs.answered hstep
    | signal sig => exact absurd rfl (hmove sig)
  obtain ⟨hsound, hnone⟩ := Along.returned hcourse hreturned
  obtain ⟨hlawful, htheirs⟩ := run_lawful hrun
  constructor
  · have hbalance := hlawful.balance
    rwa [hnone, List.append_nil] at hbalance
  · intro later pid earlier heq
    have hmem := hsound.orderly later pid earlier heq
    refine ⟨hmem, ?_⟩
    rw [← htheirs]
    apply hlawful.others
    rw [heq]
    exact mem_forks_append (unreaped_forked hmem)

def httpExits : List Move :=
  [1, 0, 0, 1, 1, 7, 0, 7, 0, 1, 1, 8, 0, 8, 0, 1, 7, -1, 7, 0, 8, 8, 0, 8, 0, -1, 0].map .answered

theorem runManager_owns_httpExits :
    ∃ m, run step (start (some 5)) httpExits = some m ∧ m.control.result = some 1 ∧
      m.process.log = [.reaped 8, .signaled 8, .reaped 7, .forked 8, .forked 7] ∧
      (forks m.process.log).Perm (reaps m.process.log) ∧
        ∀ later pid earlier, m.process.log = later ++ .signaled pid :: earlier →
          pid ∈ unreaped earlier ∧ some 5 ≠ some pid := by
  have hreturned : (run step (start (some 5)) httpExits).bind (fun m => m.control.result) = some 1 := by decide +kernel
  have hlog : (run step (start (some 5)) httpExits).map (fun m => m.process.log) =
      some [.reaped 8, .signaled 8, .reaped 7, .forked 8, .forked 7] := by decide +kernel
  cases hrun : run step (start (some 5)) httpExits with
  | none =>
    rw [hrun] at hreturned
    cases hreturned
  | some m =>
    rw [hrun] at hreturned hlog
    have hquiet : ∀ (moves : List ℤ) (m : Machine),
        Obeys step (fun _ move => ∀ sig, move ≠ .signal sig) m (moves.map .answered) := by
      intro moves
      induction moves with
      | nil => exact fun _ => trivial
      | cons a moves ih => exact fun _ => ⟨fun _ => Move.noConfusion, fun t _ => ih t⟩
    exact ⟨m, rfl, hreturned, Option.some.inj hlog, runManager_owns hrun (hquiet _ _) hreturned⟩

end BinderDownload.Manager
