import DycoCoroutine.NotifyWait
import DycoCoroutine.Semaphore
import DycoCoroutine.Simulation

/-!
# A semaphore on the scheduler

The coroutines of a scheduler use a semaphore. A wait that blocks opens a counter,
registers it and yields, and the loop of the scheduler resumes it, after which it reads the
counter and closes it. The semaphore alone was treated with waits that are resumed at any
time, or only after a write to their counter. Here the scheduler decides. In every run in
which the program leaves the counters alone, a wait without a timer is resumed only after a
write, and no blocked wait drops out of the containers of the scheduler.
-/

namespace DycoCoroutine.SemaphoreSchedule

open ScheduleState ScheduleOps ScheduleControl CoroutineStanding CoroutineHops ScheduleAbort
open EpollRegistration DescriptorEntry NotifyWait RunInvariant Simulation EventFd
open ScheduleRun (inUserCode isDone waitev)
open Semaphore (World Waiter)

/-- A scheduler with a semaphore that its coroutines use. -/
structure Joint where
  /-- The scheduler. -/
  sched : Sched
  /-- The semaphore, the waits blocked in it and the descriptor table. -/
  sem : World

/-- What can happen next. -/
inductive Act
  /-- A step of the scheduler, or another call of the running coroutine or of the main
  program. -/
  | sched (a : ScheduleRun.Act)
  /-- `dyco_semaphore_wait` -/
  | wait (timeout fd : ℤ) (allocated : Bool) (now : ℕ) (depth : ℕ×ℕ)
  /-- `dyco_semaphore_signal` -/
  | signal

/-- The descriptor table after descriptors have been opened and closed. -/
def retable (openFds : List ℤ) (table : Table) : Table :=
  fun fd => if fd∈openFds then some ((table fd).getD .other) else none

/-- Who calls. -/
def context (s : Sched) : Context := if s.currThread=none then .outside else .symmetric

/-- The calling coroutine. The main program goes by a number that no coroutine has. -/
def caller (s : Sched) : Co := s.currThread.getD s.nextCo

/-- Whether `dyco_semaphore_wait` gets as far as `eventfd`. -/
def opensCounter (j : Joint) (timeout : ℤ) : Bool :=
  j.sem.sem.semval=0 && timeout≠0 && j.sched.currThread.isSome

/-- What `dyco_semaphore_wait` asks of the scheduler up to `yield`. -/
def schedulerCalls (j : Joint) (timeout fd : ℤ) (allocated : Bool) (now : ℕ) (depth : ℕ×ℕ) :
    List ScheduleRun.Act :=
  if opensCounter j timeout then
    if allocated then [.openFd fd,.wait fd timeout now depth] else [.openFd fd]
  else []

/-- Both parts of a call. -/
def both (r : Option (Except Fault Sched)) (q : Option (Except Fault World)) :
    Option (Except Fault Joint) :=
  r.bind fun r => q.map fun q => do
    let s ← r
    let w ← q
    pure ⟨s,w⟩

/-- A coroutine that has been resumed in `dyco_semaphore_wait` reads its counter and closes
it before anything else happens. -/
def finishWait (j : Joint) : Joint :=
  match j.sem.blocked.find? fun v => j.sched.currThread=some v.co with
  | some v => ⟨closeFd j.sched v.notifyfd,Semaphore.afterYield j.sem v⟩
  | none => j

/-- One step of the scheduler and the semaphore. -/
def step (j : Joint) : Act → Option (Except Fault Joint)
  | .sched a =>
    if reports j.sem.fds a then
      (ScheduleRun.step j.sched a).map fun r => r.map fun s =>
        finishWait ⟨s,{j.sem with fds := retable s.openFds j.sem.fds}⟩
    else none
  | .wait timeout fd allocated now depth =>
    if inUserCode j.sched then
      both (perform ScheduleRun.step j.sched (schedulerCalls j timeout fd allocated now depth))
        (Semaphore.step j.sem
          (.wait (caller j.sched) (context j.sched) timeout fd allocated))
    else none
  | .signal =>
    if inUserCode j.sched then
      (Semaphore.step j.sem (.signal (context j.sched))).map fun r => r.map fun w =>
        {j with sem := w}
    else none

/-- An event counter. -/
def isCounter : Option Desc → Bool
  | some (.event _) => true
  | _ => false

/-- The counters of the semaphore stay open, and nobody else waits for them. -/
def sparesCounters (j : Joint) (a : ScheduleRun.Act) : Bool :=
  j.sched.openFds.all fun fd => !isCounter (j.sem.fds fd) || !concerns fd a &&
    match ScheduleRun.step j.sched a with
    | some (.ok t) => fd∈t.openFds
    | _ => true

/-- Anything but an abort of the scheduler. -/
def goesOn : ScheduleRun.Act → Bool
  | .schedAbort => false
  | _ => true

/-- The program keeps to the rules of the scheduler and leaves the counters of the
semaphore alone. -/
def Careful (j : Joint) : Act → Prop
  | .sched a => Registering j.sched a ∧ goesOn a=true ∧ sparesCounters j a=true
  | .wait timeout fd _ now depth =>
    killsCleanly j.sched (.wait fd timeout now depth)=true ∧ hasRoom j.sched.fdCoMap=true
  | .signal => True

instance (j : Joint) (a : Act) : Decidable (Careful j a) :=
  match a with
  | .sched _ => inferInstanceAs (Decidable (_∧_))
  | .wait _ _ _ _ _ => inferInstanceAs (Decidable (_∧_))
  | .signal => inferInstanceAs (Decidable True)

/-- Waits have no timer. -/
def patient : Act → Bool
  | .wait timeout _ _ _ _ => timeout≤0
  | _ => true

/-- The states that a new scheduler with a new semaphore can reach when every step meets
`cond`. -/
def Reachable (value : ℕ) (cond : Joint → Act → Prop) (j : Joint) : Prop :=
  ∃ schedId stackSize pageSize now sem,Semaphore.dycoSemaphoreCreate value=some sem ∧
    Runs step cond ⟨dycoScheduleCreate schedId stackSize pageSize now,Semaphore.newSemaphore sem⟩ j

variable {s t : Sched} {w w' : World} {j k : Joint} {a : ScheduleRun.Act} {fd : ℤ} {v : Waiter}
  {strict : Prop} {value : ℕ}

/-- The scheduler keeps its own books. -/
structure Orderly (s : Sched) : Prop where
  sound : Sound s
  interest : Interest s
  registered : Registered s

/-- Every step of the scheduler keeps its order. -/
theorem Orderly.step (h : Orderly s) (hc : Registering s a) (ha : a≠.schedAbort)
    (hs : ScheduleRun.step s a=some (.ok t)) : Orderly t := by
  have hm := moves_of_step hs
  exact ⟨h.sound.moves hc.disciplined.1 hc.disciplined.2 ha hm,
    (interest_step h.interest (fun _ => ⟨h.sound,h.registered⟩) hc hs).post_of_ok,
    h.registered.moves h.sound hc.disciplined.1 hc.disciplined.2
      (fdUnmapped_of_respectsFds hc.respectsFds) ha hm⟩

/-- The scheduler and the semaphore fit together, except that a wait which has just been
resumed may still be listed as blocked. Under `strict` no wait has a timer. -/
structure Fitting (strict : Prop) (s : Sched) (w : World) : Prop where
  orderly : Orderly s
  reported : Reported w.fds s
  opened : ∀ fd,w.fds fd≠none → fd∈s.openFds
  callers : (w.blocked.map Waiter.co).Nodup
  counters : (w.blocked.map Waiter.notifyfd).Nodup
  untimed : strict → ∀ v∈w.blocked,v.timed=false
  parked : ∀ v∈w.blocked,s.currThread≠some v.co → Parked w.fds v.notifyfd v.co v.timed s
  woken : ∀ v∈w.blocked,s.currThread=some v.co → v.timed=false →
    (eventfdRead w.fds v.notifyfd).isSome=true
  sole : ∀ v∈w.blocked,∀ d,s.fdCoMap.lookup v.notifyfd=some d → d=v.co

/-- The scheduler and the semaphore fit together between two steps. -/
structure Coupled (strict : Prop) (s : Sched) (w : World) : Prop extends Fitting strict s w where
  suspended : ∀ v∈w.blocked,s.currThread≠some v.co

/-- A wait is resumed because of a write or of its timer, and under `strict` because of a
write. -/
def Answered (strict : Prop) (w : World) (a : Semaphore.Act) : Prop :=
  Semaphore.genuine w a=true ∧ (strict → Semaphore.grantedFirst w a=true)

/-! ## Steps of the scheduler alone -/

/-- Outside the loop no event is pending. -/
theorem reported_of_inUserCode {table : Table} (hu : inUserCode s=true) : Reported table s := by
  intro fds hp
  simp [inUserCode,hp] at hu

/-- What a step of the scheduler does to the blocked waits. -/
theorem Coupled.moves (h : Coupled strict s w) (hc : Registering s a) (ha : a≠.schedAbort)
    (hrep : reports w.fds a=true) (hcon : ∀ v∈w.blocked,concerns v.notifyfd a=false)
    (hs : ScheduleRun.step s a=some (.ok t)) :
    Orderly t ∧ Reported w.fds t ∧ ∀ v∈w.blocked,
      (t.currThread=some v.co → v.timed=false → (eventfdRead w.fds v.notifyfd).isSome=true) ∧
      (t.currThread≠some v.co → Parked w.fds v.notifyfd v.co v.timed t) ∧
      ∀ d,t.fdCoMap.lookup v.notifyfd=some d → d=v.co := by
  have hm := moves_of_step hs
  refine ⟨h.orderly.step hc ha hs,h.reported.moves hrep hm,fun v hv => ?_⟩
  exact (h.parked v hv (h.suspended v hv)).moves h.orderly.sound h.orderly.registered
    hc.disciplined (fdUnmapped_of_respectsFds hc.respectsFds) (hcon v hv) h.reported hm

/-- A call that closes nothing and resumes nobody. -/
theorem Coupled.call (h : Coupled strict s w) (hc : Registering s a) (ha : a≠.schedAbort)
    (hrep : reports w.fds a=true) (hcon : ∀ v∈w.blocked,concerns v.notifyfd a=false)
    (hs : ScheduleRun.step s a=some (.ok t)) (hopen : ∀ x∈s.openFds,x∈t.openFds)
    (hthread : ∀ v∈w.blocked,t.currThread≠some v.co) : Coupled strict t w := by
  obtain ⟨horder,hreported,hwaits⟩ := h.moves hc ha hrep hcon hs
  exact ⟨⟨horder,hreported,fun x hx => hopen x (h.opened x hx),h.callers,h.counters,h.untimed,
    fun v hv => (hwaits v hv).2.1,fun v hv => (hwaits v hv).1,fun v hv => (hwaits v hv).2.2⟩,
    hthread⟩

/-- Counters may grow while user code is executed. -/
theorem Coupled.of_table (h : Coupled strict s w) (hu : inUserCode s=true)
    (hb : w'.blocked=w.blocked) (hopened : ∀ x,w'.fds x≠none → x∈s.openFds)
    (hgrow : ∀ x n,w.fds x=some (.event n) → ∃ k,w'.fds x=some (.event (n+k))) :
    Coupled strict s w' := by
  refine ⟨⟨h.orderly,reported_of_inUserCode hu,hopened,?_,?_,?_,?_,?_,?_⟩,?_⟩ <;> rw [hb]
  · exact h.callers
  · exact h.counters
  · exact h.untimed
  · exact fun v hv hr => (h.parked v hv hr).of_table (hgrow v.notifyfd)
  · exact fun v hv hr => absurd hr (h.suspended v hv)
  · exact h.sole
  · exact h.suspended

/-- The table follows the descriptors that are opened and closed. -/
theorem retable_of_mem {l : List ℤ} {table : Table} {d : Desc} (hm : fd∈l) (hd : table fd=some d) :
    retable l table fd=some d := by simp [retable,hm,hd]

/-- A counter that is kept has the value it had. -/
theorem retable_event {l : List ℤ} {table : Table} {n : ℕ}
    (h : retable l table fd=some (.event n)) : table fd=some (.event n) := by
  unfold retable at h
  split_ifs at h
  cases hd : table fd with
  | none => simp [hd] at h
  | some d => simpa [hd] using h

/-- A step of the scheduler that leaves the counters alone. -/
theorem Coupled.fitting (h : Coupled strict s w) (hc : Registering s a) (ha : a≠.schedAbort)
    (hrep : reports w.fds a=true)
    (hspare : ∀ x n,w.fds x=some (.event n) → concerns x a=false ∧ x∈t.openFds)
    (hs : ScheduleRun.step s a=some (.ok t)) :
    Fitting strict t {w with fds := retable t.openFds w.fds} := by
  have hcounter : ∀ v∈w.blocked,∃ n,w.fds v.notifyfd=some (.event n) :=
    fun v hv => (h.parked v hv (h.suspended v hv)).counter
  have hcon : ∀ v∈w.blocked,concerns v.notifyfd a=false := by
    intro v hv
    obtain ⟨n,hn⟩ := hcounter v hv
    exact (hspare _ n hn).1
  have hsame : ∀ v∈w.blocked,retable t.openFds w.fds v.notifyfd=w.fds v.notifyfd := by
    intro v hv
    obtain ⟨n,hn⟩ := hcounter v hv
    rw [retable_of_mem (hspare _ n hn).2 hn,hn]
  obtain ⟨horder,hreported,hwaits⟩ := h.moves hc ha hrep hcon hs
  refine ⟨horder,fun fds hp x hx hz => hreported fds hp x hx (retable_event hz),fun x hx => ?_,
    h.callers,h.counters,h.untimed,fun v hv hr => ?_,fun v hv hr ht => ?_,
    fun v hv => (hwaits v hv).2.2⟩
  · by_contra hmem
    simp [retable,hmem] at hx
  · exact ((hwaits v hv).2.1 hr).of_table fun n hn => ⟨0,(hsame v hv).trans hn⟩
  · have hread := (hwaits v hv).1 hr ht
    simpa only [eventfdRead,hsame v hv] using hread

/-- To the semaphore such a step is one of the program opening and closing descriptors. -/
theorem runs_of_others (l : List ℤ) {table : Table} (hl : ∀ x,x∉l → table x=w.fds x)
    (hother : ∀ x,table x=w.fds x ∨ w.fds x=none ∧ table x=some .other ∨
      w.fds x=some .other ∧ table x=none) :
    Runs Semaphore.step (Answered strict) w {w with fds := table} := by
  induction l generalizing w with
  | nil =>
    have he : table=w.fds := funext fun x => hl x List.not_mem_nil
    rw [he]
    exact .refl
  | cons x l ih =>
    have hfirst : Runs Semaphore.step (Answered strict) w
        {w with fds := Function.update w.fds x (table x)} := by
      rcases hother x with he|⟨hn,ho⟩|⟨ho,hn⟩
      · rw [he,Function.update_eq_self]
        exact .refl
      · refine Runs.refl.tail (a := .openOther x) ⟨rfl,fun _ => rfl⟩ ?_
        simp [Semaphore.step,hn,ho]
      · refine Runs.refl.tail (a := .closeOther x) ⟨rfl,fun _ => rfl⟩ ?_
        simp [Semaphore.step,ho,hn,close]
    refine hfirst.trans (ih (fun y hy => ?_) fun y => ?_)
    · by_cases hyx : y=x
      · simp [hyx]
      · exact (hl y (by simp [hyx,hy])).trans (Function.update_of_ne hyx ..).symm
    · by_cases hyx : y=x
      · simp [hyx]
      · simpa only [Function.update_of_ne hyx] using hother y

/-- Descriptors that are not counters come and go beside the semaphore. -/
theorem runs_retable {l : List ℤ} (hopened : ∀ x,w.fds x≠none → x∈s.openFds)
    (hkept : ∀ x n,w.fds x=some (.event n) → x∈l) :
    Runs Semaphore.step (Answered strict) w {w with fds := retable l w.fds} := by
  refine runs_of_others (s.openFds++l) (fun x hx => ?_) fun x => ?_
  · obtain ⟨hxs,hxl⟩ := not_or.mp (mt List.mem_append.mpr hx)
    have hnone : w.fds x=none := by
      by_contra hne
      exact hxs (hopened x hne)
    simp [retable,hxl,hnone]
  · by_cases hx : x∈l <;> cases hd : w.fds x with
    | none => simp [retable,hx,hd]
    | some d =>
      cases d with
      | event n => simp [retable,hd,hkept x n hd]
      | other => simp [retable,hx,hd]

/-! ## Calls of the semaphore -/

/-- A coroutine is blocked in one wait at most. -/
theorem Fitting.unique {u : Waiter} (h : Fitting strict s w) (hu : u∈w.blocked) (hv : v∈w.blocked)
    (he : u.co=v.co) : u=v := List.inj_on_of_nodup_map h.callers hu hv he

/-- The counter of the wait that has been resumed is not registered any more. -/
theorem Fitting.unmapped (h : Fitting strict s w) (hv : v∈w.blocked) (hr : Running s v.co) :
    v.notifyfd∉s.fdCoMap := by
  intro hm
  obtain ⟨d,hd⟩ := Option.isSome_iff_exists.mp (AList.lookup_isSome.mpr hm)
  have hwaits := (h.orderly.sound.running hr).2.1.waits v.notifyfd
  rw [h.sole v hv d hd] at hd
  simp [standing,hd] at hwaits

/-- There was a reason to resume it. -/
theorem Fitting.answered (h : Fitting strict s w) (hv : v∈w.blocked)
    (hr : s.currThread=some v.co) : Answered strict w (.resume v.co) := by
  constructor
  · refine List.any_eq_true.mpr ⟨v,hv,?_⟩
    cases htimed : v.timed with
    | true => simp
    | false => simp [h.woken v hv hr htimed]
  · intro hst
    refine List.all_eq_true.mpr fun u hu => ?_
    by_cases he : u.co=v.co
    · rw [h.unique hu hv he]
      simp [h.woken v hv hr (h.untimed hst v hv)]
    · simp [he]

/-- The wait that has been resumed reads its counter, closes it and returns. -/
theorem Fitting.close (h : Fitting strict s w) (hv : v∈w.blocked) (hr : Running s v.co) :
    Coupled strict (closeFd s v.notifyfd) (Semaphore.afterYield w v) := by
  have hu : inUserCode s=true := by
    obtain ⟨urgent,last,idx,hp⟩ := hr.1
    simp [inUserCode,hp]
  have hclose : ScheduleRun.step s (.closeFd v.notifyfd)=some (.ok (closeFd s v.notifyfd)) := by
    simp [ScheduleRun.step,ScheduleRun.inProgram,hu]
  have hreg : Registering s (.closeFd v.notifyfd) :=
    ⟨⟨rfl,rfl⟩,by simpa [respectsFds] using h.unmapped hv hr,rfl⟩
  have hother : ∀ u∈w.blocked.filter fun u => u.notifyfd≠v.notifyfd,
      u∈w.blocked ∧ u.notifyfd≠v.notifyfd ∧ s.currThread≠some u.co := by
    intro u hmem
    obtain ⟨hmem,hne⟩ := List.mem_filter.mp hmem
    replace hne : u.notifyfd≠v.notifyfd := by simpa using hne
    refine ⟨hmem,hne,fun he => hne ?_⟩
    rw [h.unique hmem hv (Option.some.inj (he.symm.trans hr.2))]
  refine ⟨⟨h.orderly.step hreg (fun he => by cases he) hclose,reported_of_inUserCode hu,
    fun x hx => ?_,h.callers.sublist (List.filter_sublist.map _),
    h.counters.sublist (List.filter_sublist.map _),
    fun hst u hm => h.untimed hst u (hother u hm).1,fun u hm _ => ?_,
    fun u hm he => absurd he (hother u hm).2.2,fun u hm => h.sole u (hother u hm).1⟩,
    fun u hm => (hother u hm).2.2⟩
  · have hne : x≠v.notifyfd := by
      rintro rfl
      exact hx (Function.update_self ..)
    have hopen : w.fds x≠none := fun hn => hx ((Function.update_of_ne hne ..).trans hn)
    exact (List.mem_erase_of_ne hne).mpr (h.opened x hopen)
  · obtain ⟨hmem,hne,hr'⟩ := hother u hm
    have hkept := ((h.parked u hmem hr').moves h.orderly.sound h.orderly.registered
      hreg.disciplined rfl rfl h.reported (moves_of_step hclose)).2.1 hr'
    exact hkept.of_table fun n hn => ⟨0,(Function.update_of_ne hne ..).trans hn⟩

/-- Where a coroutine has been resumed in a wait, the wait is completed. -/
theorem Fitting.finish (h : Fitting strict s w) :
    Coupled strict (finishWait ⟨s,w⟩).sched (finishWait ⟨s,w⟩).sem ∧
    Runs Semaphore.step (Answered strict) w (finishWait ⟨s,w⟩).sem := by
  unfold finishWait
  cases hfind : w.blocked.find? fun v => s.currThread=some v.co with
  | none =>
    have hnone := List.find?_eq_none.mp hfind
    exact ⟨⟨h,fun v hv => by simpa using hnone v hv⟩,.refl⟩
  | some v =>
    have hv := List.mem_of_find?_eq_some hfind
    have hr : s.currThread=some v.co := by simpa using List.find?_some hfind
    have hsame : (fun u : Waiter => decide (u.co=v.co))=
        fun u => decide (s.currThread=some u.co) := by
      funext u
      simp [hr,eq_comm]
    have hstep : Semaphore.step w (.resume v.co)=some (.ok (Semaphore.afterYield w v)) := by
      simp only [Semaphore.step,hsame,hfind]
    exact ⟨h.close hv ⟨h.orderly.sound.control.thread _ hr,hr⟩,
      Runs.refl.tail (h.answered hv hr) hstep⟩

/-- A wait has suspended its caller. -/
theorem Coupled.admit {timed : Bool} {c : Co} (h : Coupled strict s w)
    (hb : w'.blocked=w.blocked++[⟨c,fd,timed⟩]) (hfds : w'.fds=w.fds)
    (hp : Parked w.fds fd c timed s) (hco : ∀ v∈w.blocked,v.co≠c)
    (hfd : ∀ v∈w.blocked,v.notifyfd≠fd) (hst : strict → timed=false) : Coupled strict s w' := by
  have hmem : ∀ v∈w'.blocked,v∈w.blocked ∨ v=⟨c,fd,timed⟩ := by simp [hb]
  refine ⟨⟨h.orderly,hfds ▸ h.reported,hfds ▸ h.opened,?_,?_,fun hstrict v hv => ?_,
    fun v hv hr => ?_,fun v hv hr => ?_,fun v hv => ?_⟩,fun v hv => ?_⟩
  · rw [hb,List.map_append,List.nodup_append]
    refine ⟨h.callers,by simp,?_⟩
    simpa using hco
  · rw [hb,List.map_append,List.nodup_append]
    refine ⟨h.counters,by simp,?_⟩
    simpa using hfd
  · rcases hmem v hv with hv|rfl
    · exact h.untimed hstrict v hv
    · exact hst hstrict
  · rw [hfds]
    rcases hmem v hv with hv|rfl
    · exact h.parked v hv hr
    · exact hp
  · rcases hmem v hv with hv|rfl
    · exact absurd hr (h.suspended v hv)
    · exact absurd hr hp.suspended
  · rcases hmem v hv with hv|rfl
    · exact h.sole v hv
    · exact hp.sole
  · rcases hmem v hv with hv|rfl
    · exact h.suspended v hv
    · exact hp.suspended

/-- `eventfd` in `dyco_semaphore_wait`, for the scheduler and for the table. -/
theorem Coupled.eventfd (h : Coupled strict s w) (hfd : w.fds fd=none)
    (hs : ScheduleRun.step s (.openFd fd)=some (.ok t)) :
    t=openFd s fd ∧ inUserCode s=true ∧ fd∉s.openFds ∧
    Coupled strict t {w with fds := openEvent w.fds fd} := by
  have hm := moves_of_step hs
  cases hm with
  | openFd hu hnew =>
    have hne : ∀ x n,w.fds x=some (.event n) → x≠fd := by
      rintro x n hn rfl
      simp [hfd] at hn
    have hopened : Coupled strict (openFd s fd) w := by
      refine h.call ⟨⟨rfl,rfl⟩,rfl,rfl⟩ (fun he => by cases he) rfl (fun v hv => ?_) hs
        (fun x hx => List.mem_cons_of_mem _ hx) h.suspended
      obtain ⟨n,hn⟩ := (h.parked v hv (h.suspended v hv)).counter
      exact decide_eq_false (hne _ n hn).symm
    refine ⟨rfl,hu,hnew.2,hopened.of_table hu rfl (fun x hx => ?_) fun x n hn => ⟨0,?_⟩⟩
    · by_cases he : x=fd
      · exact he ▸ List.mem_cons_self
      · have hopen : w.fds x≠none := fun hn => hx ((Function.update_of_ne he ..).trans hn)
        exact List.mem_cons_of_mem _ (h.opened x hopen)
    · exact (Function.update_of_ne (hne x n hn) ..).trans hn

/-- `dyco_semaphore_wait` returns at once, or its caller has a counter. -/
theorem dycoSemaphoreWait_cases {timeout : ℤ} {allocated : Bool}
    (h : Semaphore.dycoSemaphoreWait w (caller s) (context s) timeout fd allocated=.ok w') :
    opensCounter ⟨s,w⟩ timeout=false ∧ w'.blocked=w.blocked ∧ w'.fds=w.fds ∨
    opensCounter ⟨s,w⟩ timeout=true ∧ ∃ c,s.currThread=some c ∧ w'.fds=openEvent w.fds fd ∧
      w'.blocked=if allocated then w.blocked++[⟨c,fd,0<timeout⟩] else w.blocked := by
  unfold Semaphore.dycoSemaphoreWait at h
  cases hc : s.currThread with
  | none =>
    simp only [context,hc,if_true,or_true] at h
    split_ifs at h <;> cases h <;> exact .inl ⟨by simp [opensCounter,hc],rfl,rfl⟩
  | some c =>
    simp only [context,caller,hc,reduceCtorEq,if_false,or_false,Option.getD_some] at h
    split_ifs at h with hpos hzero halloc <;> cases h
    · exact .inl ⟨by simp [opensCounter,hpos.ne'],rfl,rfl⟩
    · exact .inl ⟨by simp [opensCounter,hzero],rfl,rfl⟩
    · refine .inr ⟨by simp [opensCounter,hc,hzero,Nat.eq_zero_of_not_pos hpos],c,rfl,rfl,?_⟩
      simp [Semaphore.enterQueue,halloc]
    · refine .inr ⟨by simp [opensCounter,hc,hzero,Nat.eq_zero_of_not_pos hpos],c,rfl,rfl,?_⟩
      simp [Semaphore.reply,halloc]

/-- `dyco_semaphore_wait` up to its return or to `yield`. -/
theorem Coupled.wait {timeout : ℤ} {allocated : Bool} {now : ℕ} {depth : ℕ×ℕ}
    (h : Coupled strict s w) (hu : inUserCode s=true)
    (hkill : killsCleanly s (.wait fd timeout now depth)=true)
    (hroom : hasRoom s.fdCoMap=true) (hst : strict → timeout ≤ 0)
    (hs : perform ScheduleRun.step s (schedulerCalls ⟨s,w⟩ timeout fd allocated now depth)=
      some (.ok t))
    (hw : Semaphore.step w (.wait (caller s) (context s) timeout fd allocated)=some (.ok w')) :
    Coupled strict t w' := by
  simp only [Semaphore.step] at hw
  split_ifs at hw with hfree
  obtain ⟨hfd,hco⟩ := hfree
  rcases dycoSemaphoreWait_cases (Option.some.inj hw) with ⟨hno,hb,hfds⟩|⟨hyes,c,hc,hfds,hb⟩
  · simp only [schedulerCalls,hno] at hs
    cases hs
    exact h.of_table hu hb (hfds ▸ h.opened) fun x n hn => ⟨0,hfds ▸ hn⟩
  simp only [schedulerCalls,hyes,if_true] at hs
  cases allocated with
  | false =>
    obtain ⟨u,hs,hnil⟩ := perform_cons_eq_ok hs
    cases hnil
    obtain ⟨rfl,-,-,hcounter⟩ := h.eventfd hfd hs
    exact hcounter.of_table hu hb (hfds ▸ hcounter.opened) fun x n hn => ⟨0,hfds ▸ hn⟩
  | true =>
    obtain ⟨u,hopen,hs⟩ := perform_cons_eq_ok hs
    obtain ⟨t',hwait,hnil⟩ := perform_cons_eq_ok hs
    cases hnil
    obtain ⟨rfl,-,hnew,hcounter⟩ := h.eventfd hfd hopen
    have hrun : Running (openFd s fd) c := ⟨hcounter.orderly.sound.control.thread c hc,hc⟩
    have hcall : waitev (openFd s fd) c fd timeout now depth=.ok t := by
      cases moves_of_step hwait with
      | wait hr _ _ h =>
        rwa [Option.some.inj (hr.2.symm.trans hc)] at h
    obtain ⟨hfds',hnone⟩ := openFds_of_wait hcounter.orderly.sound hrun hkill hcall
    have hunmapped : fd∉s.fdCoMap := fun hm =>
      hnew (h.orderly.interest.opened fd ((h.orderly.interest.exact fd).mpr hm))
    have hown : ∀ v∈w.blocked,v.notifyfd≠fd := by
      rintro v hv rfl
      obtain ⟨n,hn⟩ := (h.parked v hv (h.suspended v hv)).counter
      simp [hfd] at hn
    have hparked : Parked (openEvent w.fds fd) fd c (0<timeout) t :=
      parked_of_wait hcounter.orderly.sound hrun hkill ⟨0,Function.update_self ..⟩ hcall
    have hcalled : Coupled strict t {w with fds := openEvent w.fds fd} := by
      have hreg : Registering (openFd s fd) (.wait fd timeout now depth) :=
        ⟨⟨rfl,hkill⟩,by simp [respectsFds,openFd,hunmapped,hroom],rfl⟩
      exact hcounter.call hreg (fun he => by cases he) rfl
        (fun v hv => decide_eq_false (hown v hv).symm) hwait (fun x hx => hfds' ▸ hx)
        fun v _ => by simp [hnone]
    refine hcalled.admit hb hfds hparked ?_ hown fun hs => by simpa using hst hs
    simpa [caller,hc] using hco.1

/-- `dyco_semaphore_signal` -/
theorem Coupled.signal (h : Coupled strict s w) (hu : inUserCode s=true) {context : Context}
    (hw : Semaphore.step w (.signal context)=some (.ok w')) : Coupled strict s w' := by
  simp only [Semaphore.step,Option.some.injEq] at hw
  unfold Semaphore.dycoSemaphoreSignal at hw
  have hsame : ∀ x n,w.fds x=some (.event n) → ∃ k,w.fds x=some (.event (n+k)) :=
    fun x n hn => ⟨0,hn⟩
  split at hw
  · cases hw
    exact h.of_table hu rfl h.opened hsame
  split at hw
  · cases hw
    exact h.of_table hu rfl h.opened hsame
  split at hw
  · cases hw
    exact h.of_table hu rfl h.opened hsame
  split at hw
  · cases hw
  next fds hwrite =>
    cases hw
    exact h.of_table hu rfl (fun x hx => h.opened x (mt (eventfdWrite_domain hwrite) hx))
      fun x n hn => eventfdWrite_grows hwrite hn

/-! ## Whole runs -/

/-- A joint step succeeds when both parts do. -/
theorem both_eq_ok {r : Option (Except Fault Sched)} {q : Option (Except Fault World)}
    (h : both r q=some (.ok k)) : r=some (.ok k.sched) ∧ q=some (.ok k.sem) := by
  obtain ⟨r',hr,hboth⟩ := Option.bind_eq_some_iff.mp h
  obtain ⟨q',hq,hpair⟩ := Option.map_eq_some_iff.mp hboth
  obtain ⟨s,rfl,hrest⟩ := bind_eq_ok hpair
  obtain ⟨w,rfl,hok⟩ := bind_eq_ok hrest
  cases hok
  exact ⟨hr,hq⟩

/-- One step keeps the two together and is a run of the semaphore. -/
theorem Coupled.step {b : Act} (h : Coupled strict j.sched j.sem) (hc : Careful j b)
    (hst : strict → patient b=true) (hs : step j b=some (.ok k)) :
    Coupled strict k.sched k.sem ∧ Runs Semaphore.step (Answered strict) j.sem k.sem := by
  cases b with
  | sched a =>
    obtain ⟨hreg,hgo,hspare⟩ := hc
    simp only [SemaphoreSchedule.step] at hs
    split_ifs at hs with hrep
    obtain ⟨r,hr,hs⟩ := Option.map_eq_some_iff.mp hs
    obtain ⟨t,rfl,rfl⟩ := map_eq_ok hs
    have ha : a≠.schedAbort := by
      rintro rfl
      cases hgo
    have hspared : ∀ x n,j.sem.fds x=some (.event n) → concerns x a=false ∧ x∈t.openFds := by
      intro x n hn
      have hx := List.all_eq_true.mp hspare x (h.opened x (by simp [hn]))
      simpa [isCounter,hn,hr] using hx
    obtain ⟨hend,hrun⟩ := (h.fitting hreg ha hrep hspared hr).finish
    exact ⟨hend,(runs_retable h.opened fun x n hn => (hspared x n hn).2).trans hrun⟩
  | wait timeout fd allocated now depth =>
    simp only [SemaphoreSchedule.step] at hs
    split_ifs at hs with hu
    obtain ⟨hsched,hsem⟩ := both_eq_ok hs
    refine ⟨h.wait hu hc.1 hc.2 (fun hs => by simpa [patient] using hst hs) hsched hsem,?_⟩
    exact Runs.refl.tail ⟨rfl,fun _ => rfl⟩ hsem
  | signal =>
    simp only [SemaphoreSchedule.step] at hs
    split_ifs at hs with hu
    obtain ⟨r,hr,hs⟩ := Option.map_eq_some_iff.mp hs
    obtain ⟨w,rfl,rfl⟩ := map_eq_ok hs
    exact ⟨h.signal hu hr,Runs.refl.tail ⟨rfl,fun _ => rfl⟩ hr⟩

/-- A new scheduler and a new semaphore. -/
theorem coupled_create (schedId stackSize pageSize now : ℕ) (sem : Semaphore.Sem) :
    Coupled strict (dycoScheduleCreate schedId stackSize pageSize now)
      (Semaphore.newSemaphore sem) := by
  refine ⟨⟨⟨sound_create schedId stackSize pageSize now,?_,?_⟩,reported_of_inUserCode rfl,?_,?_,?_,
    ?_,?_,?_,?_⟩,?_⟩
  · exact ⟨List.nodup_nil,fun fd => by simp [dycoScheduleCreate],fun fd hfd => by cases hfd⟩
  · exact fun c _ _ h => by cases h
  all_goals simp [Semaphore.newSemaphore]

/-- Every run keeps the scheduler and the semaphore together, and is a run of the
semaphore. -/
theorem coupled_of_reachable
    (h : Reachable value (fun j b => Careful j b ∧ (strict → patient b=true)) j) :
    Coupled strict j.sched j.sem ∧ Semaphore.Reachable value (Answered strict) j.sem := by
  obtain ⟨schedId,stackSize,pageSize,now,sem,hsem,h⟩ := h
  obtain ⟨hc,hrun⟩ := runs_of_projection Joint.sem (fun j => Coupled strict j.sched j.sem)
    (coupled_create schedId stackSize pageSize now sem)
    (fun u b v hu hb hv => hu.step hb.1 hb.2 hv) h
  exact ⟨hc,sem,hsem,hrun⟩

/-- Every run of the two together is a run of the semaphore in which a wait is resumed because
its counter was written to or its timer expired. A blocked wait is suspended, and it is
registered or queued, so `dyco_schedule_run` does not end while a wait is blocked. -/
theorem waits_resumed_genuinely (h : Reachable value Careful j) :
    Semaphore.Reachable value (fun w a => Semaphore.genuine w a=true) j.sem ∧
    (∀ v∈j.sem.blocked,j.sched.currThread≠some v.co ∧
      (j.sched.fdCoMap.lookup v.notifyfd=some v.co ∧ v.notifyfd∈j.sched.epollSet ∨
        v.co∈j.sched.urgentReady++j.sched.ready)) ∧
    (isDone j.sched=true → j.sem.blocked=[]) := by
  obtain ⟨schedId,stackSize,pageSize,now,sem,hsem,hrun⟩ := h
  have hcoupled : Coupled False j.sched j.sem ∧ Semaphore.Reachable value (Answered False) j.sem :=
    coupled_of_reachable
      ⟨schedId,stackSize,pageSize,now,sem,hsem,hrun.mono fun _ _ hb => ⟨hb,False.elim⟩⟩
  obtain ⟨hc,sem',hsem',hproject⟩ := hcoupled
  have hheld : ∀ v∈j.sem.blocked,j.sched.fdCoMap.lookup v.notifyfd=some v.co ∧
      v.notifyfd∈j.sched.epollSet ∨ v.co∈j.sched.urgentReady++j.sched.ready := by
    intro v hv
    rcases (hc.parked v hv (hc.suspended v hv)).held with hw|hq
    · have hmem := AList.lookup_isSome.mp (Option.isSome_of_eq_some hw)
      exact .inl ⟨hw,(hc.orderly.interest.exact _).mpr hmem⟩
    · exact .inr hq.1
  refine ⟨⟨sem',hsem',hproject.mono fun _ _ hb => hb.1⟩,
    fun v hv => ⟨hc.suspended v hv,hheld v hv⟩,fun hdone => ?_⟩
  simp only [isDone,Bool.and_eq_true,List.isEmpty_iff] at hdone
  obtain ⟨⟨⟨hmap,-⟩,hready⟩,hurgent⟩ := hdone
  refine List.eq_nil_iff_forall_not_mem.mpr fun v hv => ?_
  rcases hheld v hv with ⟨hw,-⟩|hq
  · have hmem := AList.lookup_isSome.mp (Option.isSome_of_eq_some hw)
    simp [AList.mem_keys,AList.keys,hmap] at hmem
  · simp [hready,hurgent] at hq

/-- Three coroutines. The first waits without and the second with a timer, and the third
signals. -/
def oneGranted : List Act :=
  [.sched (.create false),.sched (.create false),.sched (.create false),.sched .run,.sched .loop,
    .sched (.expire 0),.sched .dispatch,.sched .dispatch,.wait (-1) 5 true 0 (100,100),
    .sched .dispatch,.wait 10 6 true 0 (100,100),.sched .dispatch,.signal,
    .sched (.exit (100,100)),.sched (.poll [5]),.sched .event,.sched .event,.sched .loop,
    .sched (.expire 20000),.sched (.expire 20000),.sched .dispatch,.sched .dispatch]

/-- One caller got its permit, another one waits. -/
theorem waits_resumed_genuinely_oneGranted :
    ∃ j,Reachable 0 Careful j ∧ j.sem.log=[.signal 0,.wait 0 0] ∧
      j.sem.blocked.map Waiter.co=[1] ∧
      Semaphore.Reachable 0 (fun w a => Semaphore.genuine w a=true) j.sem := by
  have h : (replayWhile step Careful ⟨dycoScheduleCreate 1 0 4096 0,
      Semaphore.newSemaphore ⟨0,[],none⟩⟩ oneGranted).map
        (fun j => (j.sem.log,j.sem.blocked.map Waiter.co))=
      some ([.signal 0,.wait 0 0],[1]) := by decide +kernel
  obtain ⟨j,hj,hq⟩ := Option.map_eq_some_iff.mp h
  simp only [Prod.mk.injEq] at hq
  have hreach : Reachable 0 Careful j := ⟨1,0,4096,0,_,rfl,runs_of_replayWhile hj⟩
  exact ⟨j,hreach,hq.1,hq.2,(waits_resumed_genuinely hreach).1⟩

/-- If no wait has a timer, the scheduler resumes a wait only after it was granted. So permits
are conserved, every wait in a ready queue has been granted exactly once, and a signal never
ends the process. -/
theorem scheduled_permits_conserved
    (h : Reachable value (fun j b => Careful j b ∧ patient b=true) j) :
    Semaphore.Reachable value (fun w a => Semaphore.grantedFirst w a=true) j.sem ∧
    j.sem.sem.semval+(Semaphore.acquired j.sem+Semaphore.granted j.sem)=
      value+Semaphore.released j.sem ∧
    (∀ v∈j.sem.blocked,v.co∈j.sched.urgentReady++j.sched.ready →
      j.sem.fds v.notifyfd=some (.event 1)) ∧
    (inUserCode j.sched=true → ∃ k,step j .signal=some (.ok k)) := by
  obtain ⟨schedId,stackSize,pageSize,now,sem,hsem,hrun⟩ := h
  have hcoupled : Coupled True j.sched j.sem ∧ Semaphore.Reachable value (Answered True) j.sem :=
    coupled_of_reachable
      ⟨schedId,stackSize,pageSize,now,sem,hsem,hrun.mono fun _ _ hb => ⟨hb.1,fun _ => hb.2⟩⟩
  obtain ⟨hc,sem',hsem',hproject⟩ := hcoupled
  have hreach : Semaphore.Reachable value (fun w a => Semaphore.grantedFirst w a=true) j.sem :=
    ⟨sem',hsem',hproject.mono fun _ _ hb => hb.2 trivial⟩
  have hb := Semaphore.balanced_of_reachable hreach
  refine ⟨hreach,(Nat.add_assoc ..).symm.trans hb.2,fun v hv hq => ?_,fun hu => ?_⟩
  · have hp := hc.parked v hv (hc.suspended v hv)
    have huntimed := hc.untimed trivial v hv
    rcases hp.held with hw|⟨-,hread⟩
    · have hwaits : (standing j.sched v.co).waits v.notifyfd=true := by simpa [standing] using hw
      have htimed := ((hc.orderly.sound.settled v.co).woken (List.count_pos_iff.mpr hq)
        v.notifyfd v.timed hp.cont hwaits).1
      simp [huntimed] at htimed
    · rcases hb.1.counters v hv with h0|h1
      · simp [eventfdRead,h0,huntimed] at hread
      · exact h1
  · obtain ⟨w,ret,hw,-⟩ := hb.signal (context j.sched)
    exact ⟨{j with sem := w},by simp [step,hu,Semaphore.step,hw,Except.map]⟩

/-- Two coroutines wait, and the third signals. -/
def grantedAndQueued : List Act :=
  [.sched (.create false),.sched (.create false),.sched (.create false),.sched .run,.sched .loop,
    .sched (.expire 0),.sched .dispatch,.sched .dispatch,.wait (-1) 5 true 0 (100,100),
    .sched .dispatch,.wait (-1) 6 true 0 (100,100),.sched .dispatch,.signal,
    .sched (.exit (100,100)),.sched (.poll [5]),.sched .event]

/-- A granted caller is queued and has not run yet. -/
theorem scheduled_permits_conserved_grantedAndQueued :
    ∃ j,Reachable 0 (fun j b => Careful j b ∧ patient b=true) j ∧ j.sched.ready=[0] ∧
      j.sem.blocked.map Waiter.co=[0,1] ∧ Semaphore.granted j.sem=1 ∧
      j.sem.sem.semval+(Semaphore.acquired j.sem+Semaphore.granted j.sem)=
        0+Semaphore.released j.sem := by
  have h : (replayWhile step (fun j b => Careful j b ∧ patient b=true)
      ⟨dycoScheduleCreate 1 0 4096 0,Semaphore.newSemaphore ⟨0,[],none⟩⟩ grantedAndQueued).map
        (fun j => (j.sched.ready,j.sem.blocked.map Waiter.co,Semaphore.granted j.sem))=
      some ([0],[0,1],1) := by decide +kernel
  obtain ⟨j,hj,hq⟩ := Option.map_eq_some_iff.mp h
  simp only [Prod.mk.injEq] at hq
  have hreach : Reachable 0 (fun j b => Careful j b ∧ patient b=true) j :=
    ⟨1,0,4096,0,_,rfl,runs_of_replayWhile hj⟩
  exact ⟨j,hreach,hq.1,hq.2.1,hq.2.2,(scheduled_permits_conserved hreach).2.1⟩

end DycoCoroutine.SemaphoreSchedule
