import DycoCoroutine.ScheduleAbort

/-!
# The interest list of the scheduler's epoll instance

`schedule_sched_wait` and `schedule_cancel_wait` change `fd_co_map` and the
interest list together, so the two agree in every run in which descriptors are
respected and no coroutine is released with a private epoll instance. Such a
release takes the instance out of the interest list although nothing has put it
there, and the process ends.
-/

namespace DycoCoroutine.EpollRegistration

open ScheduleState ScheduleOps ScheduleRun ScheduleControl CoroutineStanding ScheduleEffect
open CoroutineHops ScheduleAbort RunInvariant

variable {s t u : Sched} {a : Act} {c d : Co} {fd : ℤ} {r : Except Fault Sched}

/-- The part of the state that registrations are made of. -/
def tables (s : Sched) : List ℤ×List ℤ×CoMap := (s.openFds,s.epollSet,s.fdCoMap)

/-- The interest list is the key set of `fd_co_map`, without repetition and
made of open descriptors. -/
structure Interest (s : Sched) : Prop where
  nodup : s.epollSet.Nodup
  exact : ∀ fd,fd∈s.epollSet ↔ fd∈s.fdCoMap
  opened : ∀ fd∈s.epollSet,fd∈s.openFds

/-- A descriptor that a coroutine waits on is open and nobody waits on it, no
descriptor is closed while a coroutine waits on it, and so few are waited on at
once that `fd_co_map` is not resized. -/
def respectsFds (s : Sched) : Act → Bool
  | .wait fd _ _ _ => fd∈s.openFds && fd∉s.fdCoMap && hasRoom s.fdCoMap
  | .closeFd fd => fd∉s.fdCoMap
  | .epollDestroy => s.currThread.all fun c => (s.co c).epollfd∉s.fdCoMap
  | .signalDestroy => s.currThread.all fun c => (s.co c).sigfd∉s.fdCoMap
  | _ => true

/-- The coroutine has no private epoll instance, and nobody waits on its signal
descriptor. -/
def releasable (s : Sched) (c : Co) : Bool :=
  !(s.co c).flagsIomultiplexing && (!(s.co c).flagsWaitsignal || (s.co c).sigfd∉s.fdCoMap)

/-- Coroutines are released without a private epoll instance, and a scheduler is
aborted only while nobody waits on a descriptor. -/
def releasesPlain (s : Sched) : Act → Bool
  | .sleep _ _ depth => s.currThread.all fun c => !checkstk s c depth.1 || releasable s c
  | .exit _ => s.currThread.all (releasable s)
  | .abort => s.currThread.all (releasable s)
  | .checkStack depth => s.currThread.all fun c => !checkstk s c depth || releasable s c
  | .schedAbort => s.fdCoMap.entries.isEmpty &&
      s.cidCoMap.entries.all fun e => !(s.co e.2).flagsIomultiplexing
  | _ => true

/-- A step that keeps registrations in order. -/
structure Registering (s : Sched) (a : Act) : Prop where
  /-- The discipline of the ready queues. -/
  disciplined : Disciplined s a
  /-- The rules for descriptors. -/
  respectsFds : respectsFds s a=true
  /-- No release with a private epoll instance. -/
  releasesPlain : releasesPlain s a=true

instance (s : Sched) (a : Act) : Decidable (Registering s a) :=
  decidable_of_iff (Disciplined s a ∧ respectsFds s a=true ∧ releasesPlain s a=true)
    ⟨fun ⟨h₁,h₂,h₃⟩ => ⟨h₁,h₂,h₃⟩,fun ⟨h₁,h₂,h₃⟩ => ⟨h₁,h₂,h₃⟩⟩

/-- The agreement speaks of the three tables only. -/
theorem Interest.of_tables (hi : Interest s) (h : tables t=tables s) : Interest t := by
  simp only [tables,Prod.mk.injEq] at h
  obtain ⟨ho,he,hf⟩ := h
  exact ⟨he ▸ hi.nodup,by simpa [he,hf] using hi.exact,by simpa [he,ho] using hi.opened⟩

/-- A descriptor that opens keeps the agreement. -/
theorem Interest.opens (hi : Interest s) (fd : ℤ) : Interest (openFd s fd) :=
  ⟨hi.nodup,hi.exact,fun x hx => List.mem_cons_of_mem _ (hi.opened x hx)⟩

/-- Closing a descriptor that nobody waits on. -/
theorem Interest.closes (hi : Interest s) (hf : fd∉s.fdCoMap) : Interest (closeFd s fd) := by
  have hne : fd∉s.epollSet := fun h => hf ((hi.exact fd).mp h)
  refine ⟨hi.nodup.erase fd,?_,fun x hx => ?_⟩
  · rw [closeFd,List.erase_of_not_mem hne]
    exact hi.exact
  · have hx' : x∈s.epollSet := List.mem_of_mem_erase hx
    exact (List.mem_erase_of_ne fun (h : x=fd) => hne (h ▸ hx')).mpr (hi.opened x hx')

/-- `schedule_cancel_wait` of a registered descriptor. -/
theorem Interest.cancelWait (hi : Interest s) (hf : (s.co c).flagsWaiting=true → fd∈s.fdCoMap) :
    Yields .epollCtl Interest (scheduleCancelWait s c fd) := by
  unfold scheduleCancelWait
  split_ifs with hw
  · have hmem : fd∈s.epollSet := (hi.exact fd).mpr (hf hw)
    simp only [epollCtlDel]
    rw [if_pos ⟨hi.opened fd hmem,hmem⟩]
    refine .ok ⟨hi.nodup.erase fd,fun x => ?_,fun x hx => hi.opened x (List.mem_of_mem_erase hx)⟩
    have hx := hi.nodup.mem_erase_iff (a := x) (b := fd)
    simpa [AList.mem_erase,hi.exact] using hx
  · exact .ok hi

/-- `schedule_sched_wait` on an open descriptor that nobody waits on. -/
theorem Interest.schedWait (hi : Interest s) (ho : fd∈s.openFds) (hf : fd∉s.fdCoMap) :
    Yields .epollCtl Interest (scheduleSchedWait s c fd) := by
  have hne : fd∉s.epollSet := fun h => hf ((hi.exact fd).mp h)
  unfold scheduleSchedWait epollCtlAdd
  rw [if_pos ⟨ho,hne⟩]
  refine .ok ⟨List.nodup_cons.mpr ⟨hne,hi.nodup⟩,fun x => ?_,fun x hx => ?_⟩
  · have hx := hi.exact x
    simp [hx]
  · rcases List.mem_cons.mp hx with rfl|hx
    · exact ho
    · exact hi.opened x hx

/-- The part of a record that speaks of its registration and its release. -/
def gear (r : Coroutine) : Bool×Bool×Bool×ℤ×ℤ :=
  (r.flagsWaiting,r.flagsIomultiplexing,r.flagsWaitsignal,r.sigfd,r.cid)

/-- An operation that leaves registrations and descriptors alone. -/
structure Kept (s t : Sched) : Prop where
  tables : tables t=tables s
  cids : t.cidCoMap=s.cidCoMap
  gear : ∀ d,gear (t.co d)=gear (s.co d)

/-- Nothing happens. -/
theorem Kept.refl (s : Sched) : Kept s s := ⟨rfl,rfl,fun _ => rfl⟩

/-- Two operations in a row. -/
theorem Kept.trans (h : Kept s t) (k : Kept t u) : Kept s u :=
  ⟨k.tables.trans h.tables,k.cids.trans h.cids,fun d => (k.gear d).trans (h.gear d)⟩

/-- An update of one record that leaves its gear alone. -/
theorem Kept.setCo (s : Sched) (c : Co) {f : Coroutine → Coroutine}
    (hf : EpollRegistration.gear (f (s.co c))=EpollRegistration.gear (s.co c)) :
    Kept s (s.setCo c f) := by
  refine ⟨rfl,rfl,fun d => ?_⟩
  by_cases hd : d=c
  · simp [hd,hf]
  · simp [hd]

/-- The map of descriptors is kept. -/
theorem Kept.fdCoMap (h : Kept s t) : t.fdCoMap=s.fdCoMap := congrArg (fun p => p.2.2) h.tables

/-- The WAITING bits are kept. -/
theorem Kept.waiting (h : Kept s t) (d : Co) : (t.co d).flagsWaiting=(s.co d).flagsWaiting :=
  congrArg Prod.fst (h.gear d)

/-- What may be released is kept. -/
theorem Kept.releasable (h : Kept s t) (c : Co) : releasable t c=releasable s c := by
  have hg := h.gear c
  simp only [EpollRegistration.gear,Prod.mk.injEq] at hg
  simp [EpollRegistration.releasable,hg,h.fdCoMap]

/-- Whether a coroutine is found under its cid is kept. -/
theorem Kept.ownCid (h : Kept s t) (c : Co) : ownCid t c=ownCid s c := by
  have hg := h.gear c
  simp only [EpollRegistration.gear,Prod.mk.injEq] at hg
  unfold CoroutineHops.ownCid
  rw [h.cids,hg.2.2.2.2]

/-- Queueing a coroutine keeps the registrations. -/
theorem kept_insertReady (s : Sched) (c : Co) : Kept s (insertReady s c) := by
  have h : Kept s (s.setCo c fun r => {r with statusReady := true}) := .setCo s c rfl
  unfold insertReady
  dsimp only
  split_ifs <;> exact ⟨rfl,rfl,h.gear⟩

/-- Setting a timer keeps the registrations. -/
theorem kept_schedSleep (s : Sched) (c : Co) (msecs : ℤ) (now : ℕ) :
    Kept s (scheduleSchedSleep s c msecs now) := by
  have hdrop : Kept s (dropKey s c) := by
    unfold dropKey
    split <;> exact ⟨rfl,rfl,fun _ => rfl⟩
  unfold scheduleSchedSleep
  split_ifs
  · exact hdrop
  · refine hdrop.trans ⟨rfl,rfl,fun d => ?_⟩
    by_cases hd : d=c <;> simp [setTimer,gear,hd]

/-- Saving a stack keeps the registrations. -/
theorem kept_savestk (s : Sched) (c : Co) (depth : ℕ) : Kept s (savestk s c depth) := by
  unfold savestk
  split_ifs
  · exact .refl s
  · exact .setCo s c rfl

/-- `yield` keeps the registrations. -/
theorem kept_yield (s : Sched) (c : Co) (depth : ℕ×ℕ) (k : Cont) : Kept s (yield s c depth k) := by
  unfold yield
  split_ifs
  · exact .setCo s c rfl
  · exact .setCo s c rfl
  · exact (kept_savestk s c depth.2).trans (.setCo _ c rfl)

/-- Cancelling a timer keeps the registrations. -/
theorem kept_cancelSleep (s : Sched) (c : Co) :
    Yields .epollCtl (Kept s) (scheduleCancelSleep s c) := by
  unfold scheduleCancelSleep
  split_ifs
  · refine .ok ⟨rfl,rfl,fun d => ?_⟩
    by_cases hd : d=c <;> simp [gear,hd]
  · exact .error Fault.noConfusion
  · exact .ok (.refl s)

/-- The rest of a round keeps the tables. -/
theorem tables_leaveCo (s : Sched) (c : Co) : tables (leaveCo s c)=tables s := by
  obtain ⟨pc,h⟩ := leaveCo_eq s c
  rw [h]
  rfl

/-- A created coroutine has no registration yet. -/
theorem tables_enroll (s : Sched) (c : Co) (urgent : Bool) :
    Yields .epollCtl (fun t => tables t=tables s) (enroll s c urgent) := by
  refine Yields.bind (m := fun t => tables t=tables s) ?_ fun t ht => ?_
  · unfold register
    split_ifs
    · exact .error Fault.noConfusion
    · exact .ok rfl
  · refine .ok (Eq.trans ?_ ht)
    unfold wakeScheduler queueNew
    split_ifs <;> rfl

/-- What the release of a coroutine without a private epoll instance leaves. -/
structure Released (s t : Sched) : Prop where
  interest : Interest t
  fdCoMap : t.fdCoMap=s.fdCoMap
  iomultiplexing : ∀ d,(t.co d).flagsIomultiplexing=(s.co d).flagsIomultiplexing
  cids : ∀ k d,t.cidCoMap.lookup k=some d → s.cidCoMap.lookup k=some d

/-- A change of a record that is not about multiplexing. -/
theorem Released.setCo {f : Coroutine → Coroutine} (h : Released s t)
    (hf : (f (t.co c)).flagsIomultiplexing=(t.co c).flagsIomultiplexing) :
    Released s (t.setCo c f) := by
  refine ⟨h.interest.of_tables rfl,h.fdCoMap,fun d => ?_,h.cids⟩
  rw [← h.iomultiplexing d]
  by_cases hd : d=c <;> simp [hd,hf]

/-- The release of a coroutine without a private epoll instance. -/
theorem Interest.releaseCoro (hi : Interest s) (hr : releasable s c=true) :
    Yields .epollCtl (Released s) (releaseCoro s c) := by
  simp only [releasable,Bool.and_eq_true,Bool.not_eq_true',Bool.or_eq_true,decide_eq_true_eq] at hr
  obtain ⟨hio,hsig⟩ := hr
  unfold ScheduleOps.releaseCoro takeDownEpoll
  rw [if_neg (show ¬(s.co c).flagsIomultiplexing=true by simp [hio])]
  split_ifs
  · exact .error Fault.noConfusion
  have hcids : ∀ k d,(s.cidCoMap.erase (s.co c).cid).lookup k=some d →
      s.cidCoMap.lookup k=some d := by
    intro k d hd
    rw [lookup_erase_eq] at hd
    split_ifs at hd
    exact hd
  refine .ok ?_
  unfold takeDownSignal
  split_ifs with hw
  · have hclose := (hi.of_tables rfl : Interest {s with
        coroCount := s.coroCount-1
        cidCoMap := s.cidCoMap.erase (s.co c).cid}).closes (hsig.resolve_left (by simpa using hw))
    exact ⟨hclose,rfl,fun _ => rfl,hcids⟩
  · exact ⟨hi.of_tables rfl,rfl,fun _ => rfl,hcids⟩

/-- Ending a coroutine that may be released keeps the agreement. -/
theorem Interest.coroAbort (hi : Interest s) (hr : releasable s c=true) :
    Yields .epollCtl (Released s) (coroAbort s c) := by
  unfold ScheduleOps.coroAbort cpReturn freecoro
  split_ifs
  · split
    · exact .ok ⟨hi,rfl,fun _ => rfl,fun _ _ => id⟩
    · refine (hi.releaseCoro hr).bind fun t ht => ?_
      have ht' := ht.setCo (c := c) (f := fun r => {r with flagsUrgent := false,life := .idle}) rfl
      exact .ok ⟨ht'.interest.of_tables rfl,ht'.fdCoMap,ht'.iomultiplexing,ht'.cids⟩
  · exact (hi.releaseCoro hr).bind fun t ht => .ok (ht.setCo rfl)

/-- A coroutine that is marked for its end can be released, and a killed one is
found under its cid. -/
def Departs (s : Sched) (c : Co) : Prop :=
  ((s.co c).statusKilled=true → releasable s c=true ∧ ownCid s c=true) ∧
  ((s.co c).statusExited=true → releasable s c=true)

/-- `resume` after the switch back. -/
theorem Interest.resumeReturn (hi : Interest s) (hd : Departs s c) :
    Yields .epollCtl Interest (resumeReturn s c) := by
  unfold ScheduleOps.resumeReturn
  dsimp only
  have hi' : Interest (s.setThread none) := hi.of_tables rfl
  split_ifs with hk he
  · obtain ⟨hr,hown⟩ := hd.1 hk
    refine (kept_cancelSleep _ c).bind fun t ht => ?_
    have hlookup : t.cidCoMap.lookup (t.co c).cid=some c := by
      simpa [ownCid] using (ht.ownCid c).trans hown
    unfold cidDeleteWithAbort
    rw [hlookup]
    dsimp only
    split_ifs
    · exact .error Fault.noConfusion
    exact ((hi'.of_tables ht.tables).coroAbort ((ht.releasable c).trans hr)).bind
      fun u hu => .ok (hu.interest.of_tables rfl)
  · refine (kept_cancelSleep _ c).bind fun t ht => ?_
    exact ((hi'.of_tables ht.tables).coroAbort ((ht.releasable c).trans (hd.2 he))).mono
      fun u hu => hu.interest
  · exact .ok hi'

/-- Giving up control keeps the agreement, the end of the coroutine included. -/
theorem Interest.backToLoop (hi : Interest s) (hd : Departs s c) :
    Yields .epollCtl Interest (backToLoop s c) :=
  (hi.resumeReturn hd).bind fun t ht => .ok (ht.of_tables (tables_leaveCo t c))

/-- A coroutine that is not marked for its end departs from nothing. -/
theorem departs_of_not_doomed (h : (standing s c).doomed=false) : Departs s c := by
  simp only [standing,Bool.or_eq_false_iff] at h
  exact ⟨fun hk => by simp [h.2] at hk,fun he => by simp [h.1] at he⟩

/-- A coroutine that gives up control after operations that keep registrations. -/
theorem Kept.departs (h : Kept s t) (hr : EpollRegistration.releasable s c=true)
    (hown : (t.co c).statusKilled=true → CoroutineHops.ownCid s c=true) : Departs t c :=
  ⟨fun hk => ⟨(h.releasable c).trans hr,(h.ownCid c).trans (hown hk)⟩,
    fun _ => (h.releasable c).trans hr⟩


/-- A coroutine that suspends itself, unless `yield` finds an overflow. -/
theorem departs_yield {depth : ℕ×ℕ} {k : Cont} (hd : (standing s c).doomed=false)
    (ho : checkstk s c depth.1=true → releasable s c=true ∧ ownCid s c=true) :
    Departs (yield s c depth k) c := by
  cases hcs : checkstk s c depth.1 with
  | false =>
    refine departs_of_not_doomed ?_
    rw [(yield_spec hcs k).2,if_pos rfl]
    exact hd
  | true =>
    obtain ⟨hr,hown⟩ := ho hcs
    exact (kept_yield s c depth k).departs hr fun _ => hown

/-- `dyco_coroutine_sleep` keeps the agreement. -/
theorem interest_sleep {msecs : UInt32} {now : ℕ} {depth : ℕ×ℕ} (hs : Sound s) (hi : Interest s)
    (hr : Running s c) (hc : Registering s (.sleep msecs now depth)) :
    Yields .epollCtl Interest (dycoCoroutineSleep s c msecs now depth) := by
  obtain ⟨-,hq,-,-,-,hd⟩ := hs.running hr
  have hasleep : c∉s.sleeping := by simpa [standing] using hq.asleep
  have hplain : checkstk s c depth.1=true → releasable s c=true := by
    intro hcs
    simpa [releasesPlain,hr.2,hcs] using hc.releasesPlain
  have hkill := hc.disciplined.2
  have hclock : Kept s (s.setClock now) := ⟨rfl,rfl,fun _ => rfl⟩
  unfold dycoCoroutineSleep
  dsimp only
  split_ifs with hm
  · have hk := hclock.trans (kept_insertReady _ c)
    refine ((hi.of_tables hk.tables).of_tables (kept_yield _ c depth .sleep).tables).backToLoop
      (departs_yield ?_ fun hcs => ?_)
    · rw [standing_insertReady,if_pos rfl]
      exact hd
    · have hcs' : checkstk s c depth.1=true :=
        (checkstk_insertReady (s := s.setClock now) _).symm.trans hcs
      simp [killsCleanly,hr.2,hm,hcs'] at hkill
  · have hk := hclock.trans (kept_schedSleep _ c (toInt msecs.toNat) now)
    refine ((hi.of_tables hk.tables).of_tables (kept_yield _ c depth .sleep).tables).backToLoop
      (departs_yield ?_ fun hcs => ?_)
    · have hst := (schedSleep_spec (s := s.setClock now) hs.ordered hasleep
        (toInt msecs.toNat) now).2 c
      rw [hst,if_pos rfl]
      split_ifs <;> exact hd
    · have hcs' : checkstk s c depth.1=true :=
        (checkstk_schedSleep (s := s.setClock now) _ _ _).symm.trans hcs
      exact ⟨(hk.releasable c).trans (hplain hcs'),
        (hk.ownCid c).trans (ownCid_of_killable (by simpa [killsCleanly,hr.2,hm,hcs'] using hkill))⟩

/-- Taking the head of a queue keeps the registrations. -/
theorem kept_popQueue (s : Sched) (urgent : Bool) (c : Co) (rest : List Co) :
    Kept s (popQueue s urgent c rest) ∧ ((popQueue s urgent c rest).co c).cont=(s.co c).cont := by
  have h : Kept s (s.setCo c fun r => {r with statusReady := false}) := .setCo s c rfl
  unfold popQueue
  dsimp only
  split_ifs <;> exact ⟨⟨rfl,rfl,h.gear⟩,by simp⟩

/-- Entering a coroutine keeps the registrations. -/
theorem kept_activate (s : Sched) (c : Co) : Kept s (activate s c) := by
  refine ⟨rfl,rfl,fun d => ?_⟩
  by_cases hd : d=c <;> simp [activate,gear,hd]

/-- `resume` up to the coroutine's own code, if the registration that a wait
takes back is in place. -/
theorem Interest.enterCo (hi : Interest s) (hreg : ∀ fd timed,(s.co c).cont=.wait fd timed →
    (s.co c).flagsWaiting=true → fd∈s.fdCoMap) : Yields .epollCtl Interest (enterCo s c) := by
  have hk := kept_activate s c
  have hia : Interest (activate s c) := hi.of_tables hk.tables
  unfold ScheduleRun.enterCo
  split
  next => exact .ok hia
  next => exact .ok hia
  next fd timed hcont =>
    refine (kept_cancelSleep (activate s c) c).bind fun t ht => ?_
    have hkt := hk.trans ht
    refine (hi.of_tables hkt.tables).cancelWait fun hw => ?_
    rw [hkt.fdCoMap]
    exact hreg fd timed hcont ((hkt.waiting c).symm.trans hw)
  next => exact .ok (hia.of_tables rfl)

/-- Phases B and C: a wait that is resumed takes its own registration back. -/
theorem interest_dispatch {urgent : Bool} {last : Option Co} {idx : ℕ} (hi : Interest s)
    (hreg : Registered s) : Yields .epollCtl Interest (phaseBC s urgent last idx) := by
  unfold phaseBC
  split
  · unfold endPhase startPhase
    split_ifs <;> exact .ok (hi.of_tables rfl)
  next c rest hl =>
    split_ifs
    · exact .error Fault.noConfusion
    obtain ⟨hk,hcont⟩ := kept_popQueue s urgent c rest
    have hk' : Kept s ((popQueue s urgent c rest).goto (.inCo urgent last idx)) :=
      hk.trans ⟨rfl,rfl,fun _ => rfl⟩
    refine (hi.of_tables hk'.tables).enterCo fun fd timed hw hwait => ?_
    have hlookup := hreg.lookup ((hk'.waiting c).symm.trans hwait) (hcont.symm.trans hw)
    rw [hk'.fdCoMap]
    exact AList.lookup_isSome.mp (by simp [hlookup])

/-- Phase D takes the registration of the descriptor that it handles back. -/
theorem interest_event {rest : List ℤ} (hi : Interest s) :
    Yields .epollCtl Interest (phaseD s fd rest) := by
  unfold phaseD
  dsimp only
  split
  · exact .ok (hi.of_tables rfl)
  next c hl =>
    split_ifs
    · exact .error Fault.noConfusion
    · have hk := kept_insertReady (s.goto (.events rest)) c
      refine ((hi.of_tables rfl : Interest (s.goto (.events rest))).of_tables
        hk.tables).cancelWait fun _ => ?_
      rw [hk.fdCoMap]
      exact AList.lookup_isSome.mp (Option.isSome_of_mem hl)

/-- Waiting for a descriptor adds it to both tables. -/
theorem interest_wait {timeout : ℤ} {now : ℕ} {depth : ℕ×ℕ} (hs : Sound s) (hi : Interest s)
    (hr : Running s c) (hc : Registering s (.wait fd timeout now depth)) :
    Yields .epollCtl Interest (waitev s c fd timeout now depth) := by
  obtain ⟨-,hq,-,-,-,hd⟩ := hs.running hr
  have hasleep : c∉s.sleeping := by simpa [standing] using hq.asleep
  have hcs : checkstk s c depth.1=false := by
    simpa [killsCleanly,hr.2] using hc.disciplined.2
  obtain ⟨⟨ho,hf⟩,-⟩ : (fd∈s.openFds ∧ fd∉s.fdCoMap) ∧ hasRoom s.fdCoMap=true := by
    simpa [respectsFds] using hc.respectsFds
  unfold waitev
  have hi' : Interest (s.setClock now) := hi.of_tables rfl
  have hw := hi'.schedWait (c := c) ho hf
  cases hu : scheduleSchedWait (s.setClock now) c fd with
  | error e =>
    rw [hu] at hw
    cases hw with
    | error he => exact .error he
  | ok u =>
    rw [hu] at hw
    replace hw := hw.post_of_ok
    obtain ⟨hsl,hkeys⟩ := schedWait_sleeping hu
    obtain ⟨hfu,hstu⟩ := schedWait_spec hu
    have hk := kept_schedSleep u c timeout now
    refine ((hw.of_tables hk.tables).of_tables (kept_yield _ c depth _).tables).backToLoop
      (departs_yield ?_ fun hcs' => ?_)
    · have hst := (schedSleep_spec (hfu.ordered hs.ordered) (hsl ▸ hasleep) timeout now).2 c
      rw [hst,if_pos rfl,hstu]
      split_ifs <;> exact hd
    · rw [checkstk_schedSleep,checkstk_schedWait hu] at hcs'
      exact absurd hcs' (by simpa [checkstk] using hcs)

/-- A timer that expires keeps the agreement: the waiter itself cancels its wait. -/
theorem interest_expire {now : ℕ} (hi : Interest s) :
    Yields .epollCtl Interest (phaseA s now) := by
  unfold phaseA
  dsimp only
  split
  · exact .ok (hi.of_tables rfl)
  next c t hg =>
    split_ifs
    · exact .error Fault.noConfusion
    · have ht : tables t=tables s := by
        obtain ⟨rest,-,-,rfl⟩ := getExpired_cases hg
        rfl
      exact .ok ((hi.of_tables ht).of_tables (kept_insertReady t c).tables)

/-- The end of a coroutine function keeps the agreement. -/
theorem interest_exit {depth : ℕ×ℕ} (hs : Sound s) (hi : Interest s) (hr : Running s c)
    (hc : Registering s (.exit depth)) : Yields .epollCtl Interest (coroutineExit s c depth) := by
  obtain ⟨-,-,-,-,-,hd⟩ := hs.running hr
  simp only [standing,Bool.or_eq_false_iff] at hd
  have hk : Kept s (s.setCo c fun r => {r with statusExited := true}) := .setCo s c rfl
  have hky := hk.trans (kept_yield _ c depth .entry)
  refine (hi.of_tables hky.tables).backToLoop
    (hky.departs (by simpa [releasesPlain,hr.2] using hc.releasesPlain) fun hkill => ?_)
  cases hcs : checkstk s c depth.1 with
  | true => exact ownCid_of_killable (by simpa [killsCleanly,hr.2,hcs] using hc.disciplined.2)
  | false =>
    -- without an overflow the KILLED bit is as the running coroutine left it
    have hcs' : checkstk (s.setCo c fun r => {r with statusExited := true}) c depth.1=false := by
      simpa [checkstk] using hcs
    simp [yield,hcs',hd.2] at hkill

/-- `dyco_coroutine_abort`, and the overflow that `dyco_coroutine_checkStack`
finds. -/
theorem interest_kill (hi : Interest s) (hr : releasable s c=true) (hown : ownCid s c=true) :
    Yields .epollCtl Interest (coroutineKill s c) := by
  have hk : Kept s (s.setCo c fun r => {r with statusKilled := true,statusRunning := false}) :=
    .setCo s c rfl
  exact (hi.of_tables hk.tables).backToLoop (hk.departs hr fun _ => hown)

/-- A stop keeps the registrations. -/
theorem kept_stopSuspend (s : Sched) (c : Co) (depth : ℕ) : Kept s (stopSuspend s c depth) := by
  unfold stopSuspend
  exact (((Kept.setCo s c rfl).trans (kept_insertReady _ c)).trans (kept_savestk _ c depth)).trans
    (.setCo _ c rfl)

/-- The clearing of a chain, when every node on it may be released. -/
theorem Yields.clearChain {nodes : List (Σ _ : ℤ,Co)} {post : Sched → Prop}
    (hround : ∀ w,∀ e∈nodes,post w → Yields .epollCtl post (coroAbort w e.2)) (hs : post s) :
    Yields .epollCtl post (clearChain nodes s) := by
  induction nodes generalizing s with
  | nil => exact .ok hs
  | cons e rest ih =>
    refine (hround s e List.mem_cons_self hs).bind fun t ht => ?_
    split_ifs
    · exact .error Fault.noConfusion
    · exact ih (fun w e he => hround w e (List.mem_cons_of_mem _ he)) ht

/-- The clearing of `cid_co_map`, when each of its coroutines may be released. -/
theorem Yields.cidClear {post : Sched → Prop}
    (hcids : ∀ w,post w → ∀ k d,w.cidCoMap.lookup k=some d → s.cidCoMap.lookup k=some d)
    (hround : ∀ w k d,s.cidCoMap.lookup k=some d → post w → Yields .epollCtl post (coroAbort w d))
    (hs : post s) : Yields .epollCtl post (cidClearWithAbort s) := by
  refine Yields.foldlM (fun w i _ hw => ?_) hs
  have hfound : ∀ w,post w → ∀ e∈SlottedMap.chain cidSlot w.cidCoMap i,
      s.cidCoMap.lookup e.1=some e.2 :=
    fun w hw e he => hcids w hw e.1 e.2 (SlottedMap.mem_chain.mp he).1
  unfold clearSlot
  split
  · exact .ok hw
  next e rest hchain =>
    refine (hround w e.1 e.2 (hfound w hw e (by simp [hchain])) hw).bind fun t ht => ?_
    exact Yields.clearChain
      (fun v e he => hround v e.1 e.2 (hfound t ht e (List.mem_of_mem_tail he))) ht

/-- The abort of a scheduler while nobody waits on a descriptor. -/
theorem interest_abort (hi : Interest s) (hr : releasesPlain s .schedAbort=true) :
    Yields .epollCtl (Released s) (dycoSchedcallAbort s c) := by
  simp only [releasesPlain,Bool.and_eq_true,List.isEmpty_iff,List.all_eq_true] at hr
  obtain ⟨hnone,hplain⟩ := hr
  have hempty : ∀ fd,fd∉s.fdCoMap := by
    intro fd
    simp [AList.mem_keys,AList.keys,hnone]
  have hstart : Released s
      (s.setCo c fun r => {r with statusRunning := false,statusSchedcall := true}) :=
    Released.setCo ⟨hi,rfl,fun _ => rfl,fun _ _ => id⟩ rfl
  refine Yields.bind (m := Released s) (Yields.bind (m := Released s) ?_ fun t ht => ?_)
    fun t ht => ?_
  · refine Yields.cidClear (fun w hw => hw.cids) (fun w k d hd hw => ?_) hstart
    have hio : (w.co d).flagsIomultiplexing=false := by
      rw [hw.iomultiplexing]
      simpa using hplain ⟨k,d⟩ (AList.mem_lookup_iff.mp hd)
    refine (hw.interest.coroAbort (by simp [releasable,hio,hw.fdCoMap,hempty])).mono fun v hv => ?_
    exact ⟨hv.interest,hv.fdCoMap.trans hw.fdCoMap,
      fun d => (hv.iomultiplexing d).trans (hw.iomultiplexing d),
      fun k d hd => hw.cids k d (hv.cids k d hd)⟩
  · refine .ok ⟨ht.interest.of_tables rfl,ht.fdCoMap,ht.iomultiplexing,fun k d hd => ?_⟩
    cases hd
  · refine .ok ?_
    obtain ⟨pc,hpc⟩ := leaveCo_eq t c
    rw [hpc]
    exact ⟨ht.interest.of_tables rfl,ht.fdCoMap,ht.iomultiplexing,ht.cids⟩

/-- Every possible step keeps the interest list exact and ends in no failed
`epoll_ctl`. Inside the scheduler this takes the discipline of coroutines. -/
theorem interest_step (hi : Interest s) (hs : (∀ r,s.pc≠.main r) → Sound s ∧ Registered s)
    (hc : Registering s a) (h : step s a=some r) : Yields .epollCtl Interest r := by
  cases a with
  | create urgent =>
    obtain ⟨-,rfl⟩ := inProgram_eq_some h
    exact (tables_enroll _ _ urgent).mono fun t ht => hi.of_tables ht
  | poolCreate p totalsize stacksize =>
    simp only [step] at h
    split_ifs at h
    obtain ⟨-,rfl⟩ := inProgram_eq_some h
    have hcn := containers_cpCreate (s := s) p totalsize stacksize
    simp only [containers,Prod.mk.injEq] at hcn
    exact .ok (hi.of_tables (by simp [tables,hcn]))
  | obtain p urgent =>
    obtain ⟨-,rfl⟩ := inProgram_eq_some h
    unfold cpObtain
    split
    · exact .error Fault.noConfusion
    split_ifs
    · exact .ok hi
    split
    · exact .error Fault.noConfusion
    · exact (tables_enroll _ _ urgent).mono fun t ht => hi.of_tables ht
  | setUrgent cid urgent =>
    obtain ⟨-,rfl⟩ := inProgram_eq_some h
    unfold dycoCoroutineSetUrgent
    split_ifs
    · exact .error Fault.noConfusion
    split
    · exact .ok hi
    · exact .ok (hi.of_tables rfl)
  | openFd fd =>
    simp only [step] at h
    split_ifs at h
    obtain ⟨-,rfl⟩ := inProgram_eq_some h
    exact .ok (hi.opens fd)
  | closeFd fd =>
    obtain ⟨-,rfl⟩ := inProgram_eq_some h
    exact .ok (hi.closes (by simpa [respectsFds] using hc.respectsFds))
  | run =>
    obtain ⟨-,rfl⟩ := inProgram_eq_some h
    unfold dycoScheduleRun
    split
    · exact .error Fault.noConfusion
    all_goals exact .ok (hi.of_tables rfl)
  | loop =>
    simp only [step] at h
    split_ifs at h
    cases h
    unfold loopHead
    split_ifs <;> exact .ok (hi.of_tables rfl)
  | expire now =>
    simp only [step] at h
    split_ifs at h
    cases h
    exact interest_expire hi
  | dispatch =>
    simp only [step] at h
    split at h
    next hp =>
      cases h
      exact interest_dispatch hi (hs (by simp [hp])).2
    · cases h
  | poll fds =>
    simp only [step] at h
    split_ifs at h
    cases h
    exact .ok (hi.of_tables rfl)
  | event =>
    simp only [step] at h
    split at h <;> cases h
    · exact .ok (hi.of_tables rfl)
    · exact interest_event hi
  | sleep msecs now depth =>
    simp only [step] at h
    split_ifs at h
    obtain ⟨c,hr,rfl⟩ := inCoroutine_eq_some h
    exact interest_sleep (hs hr.inside).1 hi hr hc
  | wait fd timeout now depth =>
    simp only [step] at h
    split_ifs at h
    obtain ⟨c,hr,rfl⟩ := inCoroutine_eq_some h
    exact interest_wait (hs hr.inside).1 hi hr hc
  | exit depth =>
    obtain ⟨c,hr,rfl⟩ := inCoroutine_eq_some h
    exact interest_exit (hs hr.inside).1 hi hr hc
  | abort =>
    obtain ⟨c,hr,rfl⟩ := inCoroutine_eq_some h
    exact interest_kill hi (by simpa [releasesPlain,hr.2] using hc.releasesPlain)
      (ownCid_of_killable (by simpa [killsCleanly,hr.2] using hc.disciplined.2))
  | checkStack depth =>
    obtain ⟨c,hr,rfl⟩ := inCoroutine_eq_some h
    split_ifs with hcs
    · exact interest_kill hi (by simpa [releasesPlain,hr.2,hcs] using hc.releasesPlain)
        (ownCid_of_killable (by simpa [killsCleanly,hr.2,hcs] using hc.disciplined.2))
    · exact .ok hi
  | stop depth =>
    obtain ⟨c,hr,rfl⟩ := inCoroutine_eq_some h
    refine .ok (hi.of_tables ((tables_leaveCo _ c).trans
      (Eq.trans ?_ (kept_stopSuspend s c depth).tables)))
    rfl
  | schedAbort =>
    obtain ⟨c,hr,rfl⟩ := inCoroutine_eq_some h
    exact (interest_abort hi hc.releasesPlain).mono fun t ht => ht.interest
  | epollInit fd =>
    simp only [step] at h
    split_ifs at h
    obtain ⟨c,hr,rfl⟩ := inCoroutine_eq_some h
    unfold dycoEpollInit
    split_ifs
    · exact .ok hi
    · exact .ok ((hi.opens fd).of_tables rfl)
  | epollDestroy =>
    obtain ⟨c,hr,rfl⟩ := inCoroutine_eq_some h
    unfold dycoEpollDestroy
    split_ifs
    · have hf : (s.co c).epollfd∉s.fdCoMap := by
        simpa [respectsFds,hr.2] using hc.respectsFds
      exact .ok ((hi.closes hf).of_tables rfl)
    · exact .ok hi
  | signalInit fd =>
    simp only [step] at h
    split_ifs at h
    obtain ⟨c,hr,rfl⟩ := inCoroutine_eq_some h
    unfold dycoSignalInit
    split_ifs
    · exact .ok hi
    · exact .ok ((hi.opens fd).of_tables rfl)
  | signalDestroy =>
    obtain ⟨c,hr,rfl⟩ := inCoroutine_eq_some h
    unfold dycoSignalDestroy
    split_ifs
    · have hf : (s.co c).sigfd∉s.fdCoMap := by
        simpa [respectsFds,hr.2] using hc.respectsFds
      exact .ok ((hi.closes hf).of_tables rfl)
    · exact .ok hi

/-- Who respects the descriptors waits on none that is waited on. -/
theorem fdUnmapped_of_respectsFds (h : respectsFds s a=true) : fdUnmapped s a=true := by
  cases a with
  | wait fd timeout now depth =>
    simp only [respectsFds,Bool.and_eq_true,decide_eq_true_eq] at h
    simpa [fdUnmapped] using AList.lookup_eq_none.mpr h.1.2
  | _ => rfl

/-- Until the scheduler is aborted registrations are exact and in place, and
afterwards there are none. -/
theorem interest_of_reachable (h : Reachable Registering s) :
    UntilAbort (fun s => Interest s ∧ Registered s)
      (fun s => s.epollSet=[] ∧ s.fdCoMap.entries=[]) s := by
  refine untilAbort_of_reachable (fun _ _ h => h.disciplined) ?_ ?_ ?_ ?_ h
  · intro _ _ _ _
    refine ⟨⟨List.nodup_nil,fun fd => ?_,fun fd hfd => absurd hfd List.not_mem_nil⟩,fun c => ?_⟩
    · simp [dycoScheduleCreate]
    · exact fun _ _ h => by cases h
  · rintro u a v hs ⟨hi,hreg⟩ hc ha hv
    exact ⟨(interest_step hi (fun _ => ⟨hs,hreg⟩) hc hv).post_of_ok,
      hreg.moves hs hc.disciplined.1 hc.disciplined.2 (fdUnmapped_of_respectsFds hc.respectsFds) ha
        (moves_of_step hv)⟩
  · rintro u c v hs ⟨hi,hreg⟩ hc hv
    have hrel := interest_abort (c := c) hi hc.releasesPlain
    rw [hv] at hrel
    replace hrel := hrel.post_of_ok
    have hnone : v.fdCoMap.entries=[] := by
      rw [hrel.fdCoMap]
      have hr := hc.releasesPlain
      simp only [releasesPlain,Bool.and_eq_true,List.isEmpty_iff] at hr
      exact hr.1
    refine ⟨List.eq_nil_iff_forall_not_mem.mpr fun fd hfd => ?_,hnone⟩
    have hmem := (hrel.interest.exact fd).mp hfd
    simp [AList.mem_keys,AList.keys,hnone] at hmem
  · rintro u a v hst hct ⟨he,hf⟩ hc hm
    rcases moves_of_aborted hct hst hm with ⟨p,n,k,-,rfl⟩|⟨fds,set,pc,hset,rfl⟩
    · have hcn := containers_cpCreate (s := u) p n k
      simp only [containers,Prod.mk.injEq] at hcn
      simp [hcn,he,hf]
    · exact ⟨List.subset_nil.mp (he ▸ hset),hf⟩

/-- In every registering run the interest list is the key set of `fd_co_map`,
every mapped coroutine is live and flagged waiting, and no possible step fails
in an `epoll_ctl`. -/
theorem epoll_registrations_exact (h : Reachable Registering s) :
    (∀ fd,fd∈s.epollSet ↔ fd∈s.fdCoMap) ∧
    (∀ fd c,s.fdCoMap.lookup fd=some c → (s.co c).life=.live ∧ (s.co c).flagsWaiting=true) ∧
    ∀ a,Registering s a → step s a≠some (.error .epollCtl) := by
  have hno : ∀ (hi : Interest s),((∀ r,s.pc≠.main r) → Sound s ∧ Registered s) →
      ∀ a,Registering s a → step s a≠some (.error .epollCtl) :=
    fun hi hs a hc ha => by
      cases interest_step hi hs hc ha with
      | error he => exact he rfl
  rcases interest_of_reachable h with ⟨hs,hi,hreg⟩|⟨hst,hct,he,hf⟩
  · refine ⟨hi.exact,fun fd c hl => ?_,hno hi fun _ => ⟨hs,hreg⟩⟩
    have hw := (hs.settled c).waits fd (by simpa [standing] using hl)
    exact ⟨hw.1,hw.2.2.1⟩
  · have hempty : ∀ fd,fd∉s.fdCoMap := by
      intro fd
      simp [AList.mem_keys,AList.keys,hf]
    have hi : Interest s := ⟨by simp [he],by simp [he,hempty],by simp [he]⟩
    refine ⟨hi.exact,fun fd c hl => ?_,hno hi fun hin => ?_⟩
    · exact absurd (AList.lookup_isSome.mp (Option.isSome_of_mem hl)) (hempty fd)
    · simpa [hst] using hct.running hin

/-- A coroutine makes a private epoll instance. -/
def multiplexing : List Act :=
  [.create false,.run,.loop,.expire 0,.dispatch,.dispatch,.epollInit 5]

/-- Its exit then fails in EPOLL_CTL_DEL, although every step has been
disciplined and has respected descriptors. -/
theorem exit_with_epoll_fails :
    ∃ s,Reachable (fun s a => Disciplined s a ∧ respectsFds s a=true) s ∧
      Disciplined s (.exit (100,100)) ∧ respectsFds s (.exit (100,100))=true ∧
      s.epollSet=[] ∧ step s (.exit (100,100))=some (.error .epollCtl) := by
  have h : (replayWhile step (fun s a => Disciplined s a ∧ respectsFds s a=true)
      (dycoScheduleCreate 1 0 4096 0) multiplexing).map (fun s =>
        (decide (Disciplined s (.exit (100,100))),s.epollSet,
          (step s (.exit (100,100))).map (Except.map fun _ => ())))=
      some (true,[],some (.error .epollCtl)) := by decide +kernel
  obtain ⟨s,hs,hq⟩ := Option.map_eq_some_iff.mp h
  simp only [Prod.mk.injEq,decide_eq_true_eq] at hq
  obtain ⟨r,hr,hfault⟩ := Option.map_eq_some_iff.mp hq.2.2
  refine ⟨s,⟨1,0,4096,0,runs_of_replayWhile hs⟩,hq.1,rfl,hq.2.1,?_⟩
  rw [hr,map_eq_error hfault]

/-- A private epoll instance is waited on and destroyed before the coroutine
ends, while another coroutine waits. -/
def destroyedInTime : List Act :=
  [.openFd 7,.create false,.create false,.run,.loop,.expire 0,.dispatch,.dispatch,.epollInit 5,
    .wait 5 (-1) 0 (100,100),.dispatch,.wait 7 (-1) 0 (100,100),.poll [5],.event,.event,.loop,
    .expire 0,.dispatch,.dispatch,.epollDestroy,.exit (100,100)]

/-- A coroutine destroys its private epoll instance before it ends, and another still waits. -/
theorem epoll_registrations_exact_destroyedInTime :
    ∃ s,replayWhile step Registering (dycoScheduleCreate 1 0 4096 0) destroyedInTime=some s ∧
      s.epollSet=[7] ∧ (s.co 0).life=.freed ∧
      (∀ fd,fd∈s.epollSet ↔ fd∈s.fdCoMap) ∧
      (∀ fd c,s.fdCoMap.lookup fd=some c → (s.co c).life=.live ∧ (s.co c).flagsWaiting=true) ∧
      ∀ a,Registering s a → step s a≠some (.error .epollCtl) := by
  have h : (replayWhile step Registering (dycoScheduleCreate 1 0 4096 0) destroyedInTime).map
      (fun s => (s.epollSet,(s.co 0).life))=some ([7],.freed) := by decide +kernel
  obtain ⟨s,hs,hq⟩ := Option.map_eq_some_iff.mp h
  simp only [Prod.mk.injEq] at hq
  exact ⟨s,hs,hq.1,hq.2,epoll_registrations_exact ⟨1,0,4096,0,runs_of_replayWhile hs⟩⟩

end DycoCoroutine.EpollRegistration
