import BinderDownload.Registry.Entries

namespace BinderDownload.Registry

open Text Vintf

/-- The part of a proxy that deaths go through. Every recipient here is servicemanager itself, so an obituary is
only its cookie and its flags. -/
structure BpBinder where
  mAlive : Bool := true
  mObitsSent : Bool := false
  mObituaries : Option (List (ℕ × ℕ)) := none

namespace BpBinder

variable (p : BpBinder)

def linkToDeath (cookie flags : ℕ) : Bool × BpBinder :=
  if !p.mObitsSent then (true, { p with mObituaries := some (p.mObituaries.getD [] ++ [(cookie, flags)]) })
  else (false, p)

def sendObituary : List (ℕ × ℕ) × BpBinder :=
  if p.mObitsSent then ([], { p with mAlive := false })
  else (p.mObituaries.getD [], { mAlive := false, mObitsSent := true, mObituaries := none })

def onLastStrongRef : BpBinder := { p with mObituaries := none }

end BpBinder

structure Host where
  manager : ServiceManager := {}
  proxies : IBinder → BpBinder := fun _ => {}

def Request.links : Request → Option IBinder
  | addService _ binder _ _ => binder.filter IBinder.remoteBinder
  | registerForNotifications _ callback => callback
  | registerClientCallback _ _ cb => cb
  | _ => none

inductive HostEvent
  | transact (ipc : IPCThreadState) (world : World) (request : Request)
  | timer (world : World)
  | deadBinder (who : IBinder)
  | lastStrongRef (who : IBinder)

namespace Host

/-- What is left of the world's answer when the proxy has its say. A local binder takes no recipients. -/
def world (h : Host) (world : World) : World :=
  { world with linkToDeath := fun b => world.linkToDeath b && b.remoteBinder && ((h.proxies b).linkToDeath 0 0).1 }

def reportDeaths (who : IBinder) : List (ℕ × ℕ) → ServiceManager → ServiceManager
  | [], sm => sm
  | _ :: obits, sm => reportDeaths who obits (sm.binderDied who)

def step (h : Host) : HostEvent → Option Host
  | .transact ipc world request => do
    let (answer, _, manager) ← h.manager.handle (.transact ipc (h.world world) request)
    match request.links with
    | some b =>
      if answer.isOk then
        return ⟨manager, Function.update h.proxies b ((h.proxies b).linkToDeath 0 0).2⟩
      else return { h with manager }
    | none => return { h with manager }
  | .timer world => do
    let (_, _, manager) ← h.manager.handle (.timer world)
    return { h with manager }
  | .deadBinder who =>
    let (obits, proxy) := (h.proxies who).sendObituary
    some ⟨reportDeaths who obits h.manager, Function.update h.proxies who proxy⟩
  | .lastStrongRef who => some { h with proxies := Function.update h.proxies who (h.proxies who).onLastStrongRef }

end Host

def Slot.Holds (s : Slot) (b : IBinder) : Prop :=
  (∃ service, s.service = some service ∧ service.binder = b) ∨ b ∈ s.watchers ∨ b ∈ s.clientCallbacks

def ServiceManager.Holds (sm : ServiceManager) (b : IBinder) : Prop := ∃ name, (sm.slot name).Holds b

/-- What a process that holds binders can see: a proxy loses its last reference when no table holds it. -/
def Host.Possible (h : Host) : HostEvent → Prop
  | .lastStrongRef who => ¬ h.manager.Holds who
  | _ => True

namespace Slot

variable {name : Bytes} {s after : Slot} {event : Event} {answer : Answer} {notices : List Notice}

theorem Effect.holds (h : Effect name s event answer notices after) {b : IBinder} (hb : after.Holds b) :
    s.Holds b ∨ ∃ ipc world request, event = .transact ipc world request ∧ answer.isOk = true ∧
      (b.remoteBinder = true → request.links = some b ∧ world.linkToDeath b = true) := by
  cases h with
  | quiet hok hout hnotices | asleep hcount => exact .inl hb
  | found hrequest hs hsees | clung hs hclients | timed hs hcount =>
    rcases hb with ⟨service, hservice, rfl⟩ | hb | hb
    · obtain rfl := Option.some.inj hservice
      exact .inl (.inl ⟨_, hs, rfl⟩)
    · exact .inl (.inr (.inl hb))
    · exact .inl (.inr (.inr hb))
  | @added ipc world binder allowIsolated dumpPriority hallowed =>
    rcases hb with ⟨service, hservice, rfl⟩ | hb | hb
    · obtain rfl := Option.some.inj hservice
      refine .inr ⟨_, _, _, rfl, rfl, fun hremote => ?_⟩
      replace hremote : binder.remoteBinder = true := hremote
      unfold admission at hallowed
      simp only at hallowed
      split_ifs at hallowed with huid hadd hvalid hdeclared hlink
      simp only [hremote, Bool.true_and] at hlink
      exact ⟨by rw [Request.links, Option.filter_some, if_pos hremote], by simpa using hlink⟩
    · exact .inl (.inr (.inl hb))
    · exact .inl (.inr (.inr hb))
  | watched hfind hvalid hlink =>
    rcases hb with hb | hb | hb
    · exact .inl (.inl hb)
    · rcases List.mem_append.mp hb with hb | hb
      · exact .inl (.inr (.inl hb))
      · obtain rfl := List.mem_singleton.mp hb
        exact .inr ⟨_, _, _, rfl, rfl, fun _ => ⟨rfl, hlink⟩⟩
    · exact .inl (.inr (.inr hb))
  | unwatched hmem =>
    rcases hb with hb | hb | hb
    · exact .inl (.inl hb)
    · exact .inl (.inr (.inl (List.mem_of_mem_filter hb)))
    · exact .inl (.inr (.inr hb))
  | clientsWatched hs hpid hlink =>
    rcases hb with hb | hb | hb
    · exact .inl (.inl hb)
    · exact .inl (.inr (.inl hb))
    · rcases List.mem_append.mp hb with hb | hb
      · exact .inl (.inr (.inr hb))
      · obtain rfl := List.mem_singleton.mp hb
        exact .inr ⟨_, _, _, rfl, rfl, fun _ => ⟨rfl, hlink⟩⟩
  | unregistered hs hadd hpid hguarantee hcount =>
    rcases hb with ⟨service, hservice, rfl⟩ | hb | hb
    · cases hservice
    · exact .inl (.inr (.inl hb))
    · exact .inl (.inr (.inr hb))
  | died =>
    rcases hb with ⟨service, hservice, rfl⟩ | hb | hb
    · exact .inl (.inl ⟨service, (Option.filter_eq_some_iff.mp hservice).1, rfl⟩)
    · exact .inl (.inr (.inl (List.mem_of_mem_filter hb)))
    · exact .inl (.inr (.inr (List.mem_of_mem_filter hb)))

theorem Effect.out (h : Effect name s event answer notices after) {b : IBinder} (hout : answer.out = some b) :
    s.Holds b := by
  cases h with
  | quiet hok hnone hnotices =>
    rw [hnone] at hout
    cases hout
  | found hrequest hs hsees => exact .inl ⟨_, hs, Option.some.inj hout⟩
  | added hallowed | watched hfind hvalid hlink | unwatched hmem | clientsWatched hs hpid hlink | clung hs hclients
  | unregistered hs hadd hpid hguarantee hcount | died | asleep hcount | timed hs hcount => cases hout

theorem died_holds {who b : IBinder} (hb : (s.died who).Holds b) : b ≠ who ∧ s.Holds b := by
  have hlisteners {listeners : List IBinder} (hmem : b ∈ without (some who) listeners) : b ≠ who ∧ b ∈ listeners := by
    obtain ⟨hmem, hne⟩ := List.mem_filter.mp hmem
    exact ⟨by simpa using hne, hmem⟩
  rcases hb with ⟨service, hservice, rfl⟩ | hb | hb
  · obtain ⟨hs, hne⟩ := Option.filter_eq_some_iff.mp hservice
    exact ⟨fun heq => by simp [heq] at hne, .inl ⟨service, hs, rfl⟩⟩
  · exact ⟨(hlisteners hb).1, .inr (.inl (hlisteners hb).2)⟩
  · exact ⟨(hlisteners hb).1, .inr (.inr (hlisteners hb).2)⟩

end Slot

namespace ServiceManager

variable {sm after : ServiceManager} {event : Event} {answer : Answer} {notices : List Notice}

theorem handle_holds (htidy : sm.Tidy) (h : sm.handle event = some (answer, notices, after)) {b : IBinder}
    (hb : after.Holds b) :
    sm.Holds b ∨ ∃ ipc world request, event = .transact ipc world request ∧ answer.isOk = true ∧
      (b.remoteBinder = true → request.links = some b ∧ world.linkToDeath b = true) := by
  obtain ⟨name, hb⟩ := hb
  obtain ⟨found, sent, last, hhandle, -, hall⟩ := handle_slots htidy event
  rw [h, Option.some.injEq, Prod.mk.injEq, Prod.mk.injEq] at hhandle
  obtain ⟨rfl, rfl, rfl⟩ := hhandle
  rw [(hall name).1] at hb
  rcases (Slot.handle_effect name (sm.slot name) event).holds hb with hbefore | ⟨ipc, world, request, rfl, hok, hlinks⟩
  · exact .inl ⟨name, hbefore⟩
  · refine .inr ⟨ipc, world, request, rfl, ?_, hlinks⟩
    have hname : request.name? = some name := by
      by_contra hne
      simp only [Slot.handle, hne, if_false] at hok
      cases hok
    have hanswer := handle_answer htidy hname h
    simp only at hanswer
    rw [hanswer]
    exact hok

theorem binderDied_holds {who b : IBinder} (hb : (sm.binderDied who).Holds b) : b ≠ who ∧ sm.Holds b := by
  obtain ⟨name, hb⟩ := hb
  rw [binderDied_slot] at hb
  obtain ⟨hne, hb⟩ := Slot.died_holds hb
  exact ⟨hne, name, hb⟩

theorem empty_holds (b : IBinder) : ¬ ({} : ServiceManager).Holds b := by
  rintro ⟨name, hb⟩
  rcases hb with ⟨service, hservice, -⟩ | hb | hb
  · simp [slot] at hservice
  · simp [slot] at hb
  · simp [slot] at hb

end ServiceManager

namespace Host

variable {h k : Host} {events : List HostEvent} {event : HostEvent} {b : IBinder}

structure Sound (h : Host) : Prop where
  tidy : h.manager.Tidy
  linked : ∀ b, b.remoteBinder = true → h.manager.Holds b →
    (h.proxies b).mObitsSent = false ∧ (h.proxies b).mObituaries.getD [] ≠ []

theorem reportDeaths_tidy {sm : ServiceManager} (who : IBinder) (obits : List (ℕ × ℕ)) (htidy : sm.Tidy) :
    (reportDeaths who obits sm).Tidy := by
  induction obits generalizing sm with
  | nil => exact htidy
  | cons obit obits ih => exact ih (ServiceManager.Tidy.binderDied who)

theorem reportDeaths_holds {sm : ServiceManager} {who : IBinder} {obits : List (ℕ × ℕ)}
    (hb : (reportDeaths who obits sm).Holds b) : sm.Holds b ∧ (obits ≠ [] → b ≠ who) := by
  induction obits generalizing sm with
  | nil => exact ⟨hb, fun hne => absurd rfl hne⟩
  | cons obit obits ih =>
    obtain ⟨hheld, -⟩ := ih hb
    obtain ⟨hne, hbefore⟩ := ServiceManager.binderDied_holds hheld
    exact ⟨hbefore, fun _ => hne⟩

theorem linkToDeath_sent {p : BpBinder} (cookie flags : ℕ) :
    (p.linkToDeath cookie flags).2.mObitsSent = p.mObitsSent := by
  unfold BpBinder.linkToDeath
  split_ifs <;> rfl

theorem linkToDeath_linked {p : BpBinder} {cookie flags : ℕ} (hlink : (p.linkToDeath cookie flags).1 = true) :
    p.mObitsSent = false ∧ (p.linkToDeath cookie flags).2.mObituaries.getD [] ≠ [] := by
  unfold BpBinder.linkToDeath at hlink ⊢
  split_ifs at hlink ⊢ with hsent
  exact ⟨by simpa using hsent, by simp⟩

theorem linkToDeath_keeps {p : BpBinder} (cookie flags : ℕ) (hlinked : p.mObituaries.getD [] ≠ []) :
    (p.linkToDeath cookie flags).2.mObituaries.getD [] ≠ [] := by
  unfold BpBinder.linkToDeath
  split_ifs
  · simp
  · exact hlinked

theorem sendObituary_reports {p : BpBinder} (hsent : p.mObitsSent = false) :
    p.sendObituary.1 = p.mObituaries.getD [] := by
  simp [BpBinder.sendObituary, hsent]

theorem Sound.transact {ipc : IPCThreadState} {world : World} {request : Request} {answer : Answer}
    {notices : List Notice} {manager : ServiceManager} (hsound : h.Sound)
    (hhandle : h.manager.handle (.transact ipc (h.world world) request) = some (answer, notices, manager)) :
    ∀ b, b.remoteBinder = true → manager.Holds b →
      (h.proxies b).mObitsSent = false ∧
        ((h.proxies b).mObituaries.getD [] ≠ [] ∨ answer.isOk = true ∧ request.links = some b ∧
          ((h.proxies b).linkToDeath 0 0).1 = true) := by
  intro b hremote hb
  rcases ServiceManager.handle_holds hsound.tidy hhandle hb with hbefore | ⟨ipc, world, request, hevent, hok, hlinks⟩
  · obtain ⟨hsent, hlinked⟩ := hsound.linked b hremote hbefore
    exact ⟨hsent, .inl hlinked⟩
  · cases hevent
    obtain ⟨hrequest, hlink⟩ := hlinks hremote
    have hproxy : ((h.proxies b).linkToDeath 0 0).1 = true := by
      simp only [Host.world, Bool.and_eq_true] at hlink
      exact hlink.2
    exact ⟨(linkToDeath_linked hproxy).1, .inr ⟨hok, hrequest, hproxy⟩⟩

theorem Sound.transacted {ipc : IPCThreadState} {world : World} {request : Request} (hsound : h.Sound)
    (hstep : h.step (.transact ipc world request) = some k) : k.Sound := by
  obtain ⟨answer, notices, manager, hhandle, htidy, -⟩ :=
    ServiceManager.handle_slots hsound.tidy (.transact ipc (h.world world) request)
  have hheld := hsound.transact hhandle
  simp only [Host.step, hhandle, Option.bind_eq_bind, Option.bind_some] at hstep
  have hsame (hnone : ∀ target, request.links = some target → answer.isOk = false) :
      Sound { h with manager } := by
    refine ⟨htidy, fun b hremote hb => ?_⟩
    obtain ⟨hsent, hlinked | ⟨hyes, hrequest, -⟩⟩ := hheld b hremote hb
    · exact ⟨hsent, hlinked⟩
    · rw [hnone b hrequest] at hyes
      cases hyes
  cases hlinks : request.links with
  | none =>
    simp only [hlinks] at hstep
    obtain rfl := Option.some.inj hstep
    exact hsame (fun target htarget => by rw [hlinks] at htarget; cases htarget)
  | some target =>
    simp only [hlinks] at hstep
    cases hok : answer.isOk with
    | false =>
      simp only [hok] at hstep
      obtain rfl := Option.some.inj hstep
      exact hsame (fun _ _ => hok)
    | true =>
      simp only [hok] at hstep
      obtain rfl := Option.some.inj hstep
      refine ⟨htidy, fun b hremote hb => ?_⟩
      obtain ⟨hsent, hlinked⟩ := hheld b hremote hb
      by_cases heq : b = target
      · subst heq
        simp only [Function.update_self]
        rw [linkToDeath_sent]
        refine ⟨hsent, ?_⟩
        rcases hlinked with hlinked | ⟨-, -, hproxy⟩
        · exact linkToDeath_keeps 0 0 hlinked
        · exact (linkToDeath_linked hproxy).2
      · simp only [Function.update_of_ne heq]
        rcases hlinked with hlinked | ⟨-, hrequest, -⟩
        · exact ⟨hsent, hlinked⟩
        · rw [hlinks, Option.some.injEq] at hrequest
          exact absurd hrequest.symm heq

theorem Sound.timed {world : World} (hsound : h.Sound) (hstep : h.step (.timer world) = some k) : k.Sound := by
  obtain ⟨answer, notices, manager, hhandle, htidy, -⟩ := ServiceManager.handle_slots hsound.tidy (.timer world)
  simp only [Host.step, hhandle, Option.bind_eq_bind, Option.bind_some] at hstep
  obtain rfl := Option.some.inj hstep
  refine ⟨htidy, fun b hremote hb => ?_⟩
  rcases ServiceManager.handle_holds hsound.tidy hhandle hb with hbefore | ⟨ipc, world, request, hevent, -⟩
  · exact hsound.linked b hremote hbefore
  · cases hevent

theorem Sound.deadBinder {who : IBinder} (hsound : h.Sound) (hstep : h.step (.deadBinder who) = some k) : k.Sound := by
  have hk : k = ⟨reportDeaths who (h.proxies who).sendObituary.1 h.manager,
      Function.update h.proxies who (h.proxies who).sendObituary.2⟩ := (Option.some.inj hstep).symm
  subst hk
  refine ⟨reportDeaths_tidy who _ hsound.tidy, fun b hremote hb => ?_⟩
  obtain ⟨hbefore, hne⟩ := reportDeaths_holds hb
  obtain ⟨hsent, hlinked⟩ := hsound.linked b hremote hbefore
  have hother : b ≠ who := by
    rintro rfl
    apply hne ?_ rfl
    rw [sendObituary_reports hsent]
    exact hlinked
  simp only [Function.update_of_ne hother]
  exact ⟨hsent, hlinked⟩

theorem Sound.lastStrongRef {who : IBinder} (hsound : h.Sound) (hpossible : h.Possible (.lastStrongRef who))
    (hstep : h.step (.lastStrongRef who) = some k) : k.Sound := by
  obtain rfl := Option.some.inj hstep
  refine ⟨hsound.tidy, fun b hremote hb => ?_⟩
  have hother : b ≠ who := by
    rintro rfl
    exact hpossible hb
  simp only [Function.update_of_ne hother]
  exact hsound.linked b hremote hb

theorem Sound.step (hsound : h.Sound) (hpossible : h.Possible event) (hstep : h.step event = some k) : k.Sound := by
  cases event with
  | transact ipc world request => exact hsound.transacted hstep
  | timer world => exact hsound.timed hstep
  | deadBinder who => exact hsound.deadBinder hstep
  | lastStrongRef who => exact hsound.lastStrongRef hpossible hstep

theorem run_linked (hrun : run Host.step {} events = some h) (hpossible : Obeys Host.step Host.Possible {} events) :
    (∀ b, b.remoteBinder = true → h.manager.Holds b → (h.proxies b).mObituaries.getD [] ≠ []) ∧
      ∀ b, b.remoteBinder = true → (h.proxies b).mObitsSent = true →
        ¬ h.manager.Holds b ∧ ∀ ipc world name request, request = .getService name ∨ request = .checkService name →
          ∀ notices after, h.manager.onTransact ipc world request ≠ some (.binder (some b), notices, after) := by
  have hinitial : Sound {} := ⟨⟨by simp, by simp⟩, fun b _ hb => absurd hb (ServiceManager.empty_holds b)⟩
  have hsound := run_invariant (fun hs hp hstep => hs.step hp hstep) hinitial hrun hpossible
  refine ⟨fun b hremote hb => (hsound.linked b hremote hb).2, fun b hremote hsent => ?_⟩
  have hgone : ¬ h.manager.Holds b := by
    intro hb
    rw [(hsound.linked b hremote hb).1] at hsent
    cases hsent
  refine ⟨hgone, fun ipc world name request hrequest notices after hanswer => hgone ⟨name, ?_⟩⟩
  have hname : request.name? = some name := by rcases hrequest with rfl | rfl <;> rfl
  have hslot := ServiceManager.handle_answer hsound.tidy hname hanswer
  refine (Slot.handle_effect name (h.manager.slot name) (.transact ipc world request)).out ?_
  rw [← hslot]
  rfl

end Host

def hostEvents : List HostEvent :=
  [.transact root .calm (.addService (ascii "foo") (some ⟨1, true⟩) false 8), .deadBinder ⟨1, true⟩]

theorem Host.run_linked_foo : ∃ h, run Host.step {} hostEvents = some h ∧ (h.proxies ⟨1, true⟩).mObitsSent = true ∧
    ¬ h.manager.Holds ⟨1, true⟩ := by
  refine ⟨_, rfl, rfl, ?_⟩
  have hrun : run Host.step {} hostEvents = some _ := rfl
  exact ((run_linked hrun ⟨trivial, fun _ _ => ⟨trivial, fun _ _ => trivial⟩⟩).2 ⟨1, true⟩ rfl rfl).1

end BinderDownload.Registry
