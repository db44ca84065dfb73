import DycoCoroutine.ScheduleRun

/-!
# The hooks of `epoll_wait` and `poll`

With COROUTINE_HOOK the library replaces the two calls: a coroutine that calls them
registers a descriptor with its scheduler, yields and asks the real function when it is
resumed. What the kernel and the other coroutines do meanwhile is an argument: the
state of the scheduler at the resumption, and the state of the kernel when the real
function answers. The fast path of `epoll_wait` passes its timeout, which is 0, as
`maxevents`; `poll` gives its own timeout to the real function, and prepares an epoll
instance that does not take every array of descriptors.
-/

namespace DycoCoroutine.MultiplexHooks

open ScheduleState ScheduleOps RunInvariant

/-- Event bits. -/
abbrev Mask := BitVec 32

/-- POLLERR and POLLHUP, which are reported whether asked for or not. -/
def pollerrHup : Mask := 0x18

/-- POLLNVAL -/
def pollnval : Mask := 0x20

/-- `struct pollfd`, less `revents`. -/
structure Pollfd where
  /-- `fd` -/
  fd : ℤ
  /-- `events` -/
  events : Mask

/-- What the kernel knows at one moment. -/
structure Kernel where
  /-- The pending events of every open descriptor. -/
  pending : ℤ → Option Mask
  /-- The events that an epoll instance has to report. -/
  ready : ℤ → Option (List (Mask×ℤ))

/-- The real `epoll_wait` with timeout 0. It fails on a `maxevents` that is not
positive and on a descriptor that is no epoll instance. -/
def epollWaitF (k : Kernel) (epfd maxevents : ℤ) : ℤ×List (Mask×ℤ) :=
  if maxevents≤0 then (-1,[])
  else match k.ready epfd with
    | none => (-1,[])
    | some ready => ((ready.take maxevents.toNat).length,ready.take maxevents.toNat)

/-- `revents` of one entry. -/
def revents (k : Kernel) (p : Pollfd) : Mask :=
  if p.fd<0 then 0
  else match k.pending p.fd with
    | none => pollnval
    | some pending => pending &&& (p.events ||| pollerrHup)

/-- The real `poll`, as it answers in the state in which it returns: at once with
timeout 0. -/
def pollF (k : Kernel) (fds : List Pollfd) : ℤ×List Mask :=
  ((fds.map (revents k)).countP (·≠0),fds.map (revents k))

/-- What a hook returns, and the timeouts it has passed to the real function. -/
structure Outcome (α : Type) where
  ret : ℤ
  events : α
  timeouts : List ℤ

/-- The circumstances in which a suspended call goes on. -/
structure Resumption where
  /-- The scheduler when the coroutine is resumed. -/
  sched : Sched
  /-- What the epoll instance of `poll` still holds then. -/
  interest : List ℤ
  /-- The kernel when the real function returns. -/
  kernel : Kernel

variable (s : Sched) (c : Co) (epfd maxevents timeout : ℤ) (now : ℕ) (r : Resumption)
  (fds : List Pollfd)

/-- The calls before the `yield`. -/
def suspend (fd : ℤ) : Except Fault Sched := do
  let s ← scheduleSchedWait s c fd
  pure (scheduleSchedSleep s c timeout now)

/-- The calls after the `yield`. -/
def wake (fd : ℤ) : Except Fault Sched := do
  let s ← scheduleCancelSleep s c
  scheduleCancelWait s c fd

/-- The hook `epoll_wait` -/
def epollWait : Except Fault (Outcome (List (Mask×ℤ))) :=
  if timeout=0 then
    -- the third argument of the real function is `timeout`
    let real := epollWaitF r.kernel epfd timeout
    .ok ⟨real.1,real.2,[0]⟩
  else do
    let _ ← suspend s c timeout now epfd
    let _ ← wake r.sched c epfd
    let real := epollWaitF r.kernel epfd maxevents
    pure ⟨real.1,real.2,[0]⟩

/-- The loop of `poll` that fills its epoll instance: EPOLL_CTL_ADD fails on a
descriptor that cannot be polled, that it has already, or that is the instance itself. -/
def addAll : List ℤ → List ℤ → Except Fault (List ℤ)
  | [],interest => .ok interest
  | fd::rest,interest =>
    if fd∈s.openFds ∧ fd≠epfd ∧ fd∉interest then addAll rest (fd::interest)
    else .error .epollCtl

/-- The loop of `poll` that empties it. -/
def delAll : List ℤ → List ℤ → Except Fault (List ℤ)
  | [],interest => .ok interest
  | fd::rest,interest =>
    if fd∈s.openFds ∧ fd∈interest then delAll rest (interest.erase fd) else .error .epollCtl

/-- The hook `poll` up to its `yield`, with `epfd` as the result of `epoll_create`, which
MUSTNOT fail and does so for a size that is not a positive `int`. -/
def pollSuspend : Except Fault Sched :=
  if toInt fds.length≤0 then .error .must
  else do
    let s := openFd s epfd
    let _ ← addAll s epfd (fds.map Pollfd.fd) []
    suspend s c timeout now epfd

/-- The hook `poll` -/
def poll : Except Fault (Outcome (List Mask)) :=
  if timeout=0 then
    let real := pollF r.kernel fds
    .ok ⟨real.1,real.2,[0]⟩
  else do
    let _ ← pollSuspend s c epfd timeout now fds
    let u ← wake r.sched c epfd
    let _ ← delAll u (fds.map Pollfd.fd) r.interest
    let real := pollF r.kernel fds
    pure ⟨real.1,real.2,[timeout]⟩

/-- The hook returns what the real function answers, and has never passed it a timeout
other than 0. -/
def Agrees {α : Type} (real : ℤ×α) (out : Except Fault (Outcome α)) : Prop :=
  ∃ o,out=.ok o ∧ (o.ret,o.events)=real ∧ ∀ t∈o.timeouts,t=0

/-- The scheduler can register a descriptor. -/
def Registrable (fd : ℤ) : Prop := fd∈s.openFds ∧ fd∉s.epollSet

/-- The scheduler can undo what is left of a registration and of a timer. -/
def Cancellable (fd : ℤ) : Prop :=
  ((s.co c).statusSleeping=true → c∈s.sleeping) ∧
  ((s.co c).flagsWaiting=true → fd∈s.openFds ∧ fd∈s.epollSet)

variable {s c epfd maxevents timeout now r fds} {fd : ℤ}

/-- A suspension succeeds exactly when its descriptor can be registered. -/
theorem suspend_ok_iff : (∃ u,suspend s c timeout now fd=.ok u) ↔ Registrable s fd := by
  unfold suspend scheduleSchedWait epollCtlAdd Registrable
  split_ifs with h
  · exact iff_of_true ⟨_,rfl⟩ h
  · exact iff_of_false (fun ⟨_,hu⟩ => nomatch hu) h

/-- A deletion succeeds exactly on an open descriptor that is registered. -/
theorem epollCtlDel_ok_iff : (∃ u,epollCtlDel s fd=.ok u) ↔ fd∈s.openFds ∧ fd∈s.epollSet := by
  unfold epollCtlDel
  split_ifs with h
  · exact iff_of_true ⟨_,rfl⟩ h
  · exact iff_of_false (fun ⟨_,hu⟩ => nomatch hu) h

/-- A cancellation succeeds exactly when there is nothing or something valid to cancel. -/
theorem scheduleCancelWait_ok_iff : (∃ u,scheduleCancelWait s c fd=.ok u) ↔
    ((s.co c).flagsWaiting=true → fd∈s.openFds ∧ fd∈s.epollSet) := by
  unfold scheduleCancelWait
  by_cases hw : (s.co c).flagsWaiting=true
  · rw [if_pos hw]
    exact epollCtlDel_ok_iff.trans ⟨fun h _ => h,fun h => h hw⟩
  · rw [if_neg hw]
    exact iff_of_true ⟨_,rfl⟩ fun h => absurd h hw

/-- A resumption succeeds exactly when its wait can be cancelled. -/
theorem wake_ok_iff : (∃ u,wake s c fd=.ok u) ↔ Cancellable s c fd := by
  unfold wake Cancellable
  by_cases hs : (s.co c).statusSleeping=true
  · by_cases hmem : c∈s.sleeping
    · have hcancel : scheduleCancelSleep s c=.ok (({s with sleeping := s.sleeping.erase c}).setCo c
          fun r => {r with statusSleeping := false}) := by
        rw [scheduleCancelSleep,if_pos hs,if_pos hmem]
      rw [hcancel]
      refine scheduleCancelWait_ok_iff.trans ?_
      simp [hmem]
    · have hcancel : scheduleCancelSleep s c=.error .undefined := by
        rw [scheduleCancelSleep,if_pos hs,if_neg hmem]
      rw [hcancel]
      exact iff_of_false (fun ⟨_,hu⟩ => nomatch hu) fun h => hmem (h.1 hs)
  · have hcancel : scheduleCancelSleep s c=.ok s := by rw [scheduleCancelSleep,if_neg hs]
    rw [hcancel]
    refine scheduleCancelWait_ok_iff.trans ?_
    simp [hs]

/-- All descriptors are added exactly when they are open, new and different. -/
theorem addAll_ok_iff {l interest : List ℤ} : (∃ set,addAll s epfd l interest=.ok set) ↔
    l.Nodup ∧ ∀ fd∈l,fd∈s.openFds ∧ fd≠epfd ∧ fd∉interest := by
  induction l generalizing interest with
  | nil => simp [addAll]
  | cons fd l ih =>
    rw [addAll]
    split_ifs with h
    · rw [ih,List.nodup_cons,List.forall_mem_cons]
      constructor
      · rintro ⟨hnodup,hl⟩
        refine ⟨⟨fun hmem => (hl fd hmem).2.2 List.mem_cons_self,hnodup⟩,h,fun x hx => ?_⟩
        obtain ⟨hopen,hne,hnot⟩ := hl x hx
        exact ⟨hopen,hne,fun hmem => hnot (List.mem_cons_of_mem _ hmem)⟩
      · rintro ⟨⟨hnot,hnodup⟩,-,hl⟩
        refine ⟨hnodup,fun x hx => ?_⟩
        obtain ⟨hopen,hne,hfree⟩ := hl x hx
        refine ⟨hopen,hne,fun hmem => ?_⟩
        rcases List.mem_cons.mp hmem with rfl|hmem
        · exact hnot hx
        · exact hfree hmem
    · refine iff_of_false (fun ⟨_,hset⟩ => nomatch hset) fun hl => h (hl.2 fd List.mem_cons_self)

/-- The arrays with which the hook `poll` comes to its `yield`: a positive number of
different descriptors that can all be polled. -/
theorem pollSuspend_ok_iff : (∃ u,pollSuspend s c epfd timeout now fds=.ok u) ↔
    0<toInt fds.length ∧ (fds.map Pollfd.fd).Nodup ∧
    (∀ p∈fds,p.fd∈s.openFds ∧ p.fd≠epfd) ∧ epfd∉s.epollSet := by
  unfold pollSuspend
  split_ifs with hlen
  · exact iff_of_false (fun ⟨_,hu⟩ => nomatch hu) fun h => absurd h.1 (not_lt.mpr hlen)
  · have hadd : (∃ set,addAll (openFd s epfd) epfd (fds.map Pollfd.fd) []=.ok set) ↔ _ :=
      addAll_ok_iff
    have hfds : (∀ fd∈fds.map Pollfd.fd,fd∈(openFd s epfd).openFds ∧ fd≠epfd ∧ fd∉([] : List ℤ)) ↔
        ∀ p∈fds,p.fd∈s.openFds ∧ p.fd≠epfd := by
      simp only [openFd,List.forall_mem_map,List.mem_cons,List.not_mem_nil,not_false_eq_true,
        and_true]
      refine forall₂_congr fun p _ => ⟨fun h => ⟨h.1.resolve_left h.2,h.2⟩,fun h => ⟨.inr h.1,h.2⟩⟩
    rw [hfds] at hadd
    constructor
    · rintro ⟨u,hu⟩
      obtain ⟨set,hset,hu⟩ := bind_eq_ok hu
      obtain ⟨hnodup,hall⟩ := hadd.mp ⟨set,hset⟩
      exact ⟨not_le.mp hlen,hnodup,hall,(suspend_ok_iff.mp ⟨u,hu⟩).2⟩
    · rintro ⟨-,hnodup,hall,hnot⟩
      obtain ⟨set,hset⟩ := hadd.mpr ⟨hnodup,hall⟩
      obtain ⟨u,hu⟩ :=
        suspend_ok_iff.mpr (⟨List.mem_cons_self,hnot⟩ : Registrable (openFd s epfd) epfd)
      refine ⟨u,?_⟩
      show (addAll (openFd s epfd) epfd _ [] >>= _)=_
      rw [hset]
      exact hu

/-- The original call returns a count. -/
theorem epollWaitF_ret_nonneg {l : List (Mask×ℤ)} (hmax : 0 < maxevents)
    (hready : r.kernel.ready epfd=some l) : 0 ≤ (epollWaitF r.kernel epfd maxevents).1 := by
  rw [epollWaitF,if_neg (not_le.mpr hmax),hready]
  exact Int.natCast_nonneg _

/-- The hook of `epoll_wait` answers like the original exactly when it may suspend. -/
theorem epollWait_agrees_iff {l : List (Mask×ℤ)} (hmax : 0 < maxevents)
    (hready : r.kernel.ready epfd=some l) :
    Agrees (epollWaitF r.kernel epfd maxevents) (epollWait s c epfd maxevents timeout now r) ↔
      timeout≠0 ∧ Registrable s epfd ∧ Cancellable r.sched c epfd := by
  unfold epollWait
  by_cases htimeout : timeout=0
  · rw [if_pos htimeout]
    refine iff_of_false ?_ fun h => h.1 htimeout
    rintro ⟨o,ho,hreal,-⟩
    cases ho
    -- asked for 0 events, the real function fails
    have hret : (-1 : ℤ)=(epollWaitF r.kernel epfd maxevents).1 := by
      rw [← hreal,htimeout]
      rfl
    have hpos := epollWaitF_ret_nonneg hmax hready
    omega
  · have hsuspend : (∃ u,suspend s c timeout now epfd=.ok u) ↔ Registrable s epfd :=
      suspend_ok_iff
    rw [if_neg htimeout,← hsuspend,← wake_ok_iff]
    constructor
    · rintro ⟨o,ho,-⟩
      obtain ⟨u,hu,ho⟩ := bind_eq_ok ho
      obtain ⟨v,hv,-⟩ := bind_eq_ok ho
      exact ⟨htimeout,⟨u,hu⟩,⟨v,hv⟩⟩
    · rintro ⟨-,⟨u,hu⟩,⟨v,hv⟩⟩
      rw [hu]
      refine ⟨⟨_,_,[0]⟩,?_,rfl,by simp⟩
      show (wake r.sched c epfd >>= _)=_
      rw [hv]
      rfl

/-- The hook of `poll` answers like the original exactly when it does not wait. -/
theorem poll_agrees_iff :
    Agrees (pollF r.kernel fds) (poll s c epfd timeout now r fds) ↔ timeout=0 := by
  unfold poll
  by_cases htimeout : timeout=0
  · rw [if_pos htimeout]
    exact iff_of_true ⟨_,rfl,rfl,by simp⟩ htimeout
  · rw [if_neg htimeout]
    refine iff_of_false ?_ htimeout
    rintro ⟨o,ho,-,hzero⟩
    obtain ⟨_,-,ho⟩ := bind_eq_ok ho
    obtain ⟨_,-,ho⟩ := bind_eq_ok ho
    obtain ⟨_,-,ho⟩ := bind_eq_ok ho
    cases ho
    exact htimeout (hzero timeout List.mem_cons_self)

/-- The hook `epoll_wait` agrees with the real function exactly when its timeout is not
0, no other wait is registered for the epoll instance, and what is left of its own can be
undone when it is resumed. The hook `poll` agrees only with timeout 0; with another one
it does not even come to wait unless the descriptors are different and can be polled. -/
theorem multiplexing_hooks_agree_iff (s : Sched) (c : Co) (epfd maxevents timeout : ℤ) (now : ℕ)
    (r : Resumption) (fds : List Pollfd) :
    (∀ l,0 < maxevents → r.kernel.ready epfd=some l →
      (Agrees (epollWaitF r.kernel epfd maxevents) (epollWait s c epfd maxevents timeout now r) ↔
        timeout≠0 ∧ Registrable s epfd ∧ Cancellable r.sched c epfd)) ∧
    (Agrees (pollF r.kernel fds) (poll s c epfd timeout now r fds) ↔ timeout=0) ∧
    ((∃ u,pollSuspend s c epfd timeout now fds=.ok u) ↔
      0<toInt fds.length ∧ (fds.map Pollfd.fd).Nodup ∧
      (∀ p∈fds,p.fd∈s.openFds ∧ p.fd≠epfd) ∧ epfd∉s.epollSet) :=
  ⟨fun _ hmax hready => epollWait_agrees_iff hmax hready,poll_agrees_iff,pollSuspend_ok_iff⟩

/-- A scheduler in whose process descriptor 3 is open. -/
def oneOpen : Sched := openFd (dycoScheduleCreate 1 0 4096 0) 3

/-- Descriptor 3 is an epoll instance with one event to report. -/
def oneReady : Kernel := ⟨fun fd => if fd=3 then some 1 else none,fun fd =>
  if fd=3 then some [(1,5)] else none⟩

/-- A coroutine runs in whose process descriptor 3 is open. -/
def caller : List ScheduleRun.Act :=
  [.openFd 3,.create false,.run,.loop,.expire 0,.dispatch,.dispatch]

/-- A call with a timeout of 5 milliseconds, whose coroutine phase D has made ready
because of the event. Its timer is still set. -/
theorem multiplexing_hooks_agree_iff_notified : ∃ s t u,
    ScheduleRun.Reachable (fun _ _ => True) s ∧ s.currThread=some 0 ∧
    suspend s 0 5 0 3=.ok t ∧ ScheduleRun.phaseD t 3 []=.ok u ∧ u.ready=[0] ∧ u.sleeping=[0] ∧
    Agrees (1,[(1,5)]) (epollWait s 0 3 8 5 0 ⟨u,[],oneReady⟩) := by
  have h : ((replay ScheduleRun.step (dycoScheduleCreate 1 0 4096 0) caller).bind fun s =>
      (suspend s 0 5 0 3).toOption.bind fun t => (ScheduleRun.phaseD t 3 []).toOption.map fun u =>
        (s.currThread,(u.ready,u.sleeping),(u.co 0).flagsWaiting,
          decide (3∈s.openFds ∧ 3∉s.epollSet)))=
      some (some 0,([0],[0]),false,true) := by decide +kernel
  obtain ⟨s,hs,h⟩ := Option.bind_eq_some_iff.mp h
  obtain ⟨t,ht,h⟩ := Option.bind_eq_some_iff.mp h
  obtain ⟨u,hu,hq⟩ := Option.map_eq_some_iff.mp h
  simp only [Prod.mk.injEq,decide_eq_true_eq] at hq
  obtain ⟨hthread,⟨hready,hsleeping⟩,hwaiting,hreg⟩ := hq
  have hcancel : Cancellable u 0 3 :=
    ⟨fun _ => by rw [hsleeping]; exact List.mem_cons_self,fun hw => by rw [hwaiting] at hw; cases hw⟩
  refine ⟨s,t,u,⟨1,0,4096,0,runs_of_replay hs⟩,hthread,ok_of_toOption ht,ok_of_toOption hu,hready,
    hsleeping,?_⟩
  exact ((multiplexing_hooks_agree_iff s 0 3 8 5 0 ⟨u,[],oneReady⟩ []).1 [(1,5)] (by decide)
    rfl).mpr ⟨by decide,hreg,hcancel⟩

/-- With timeout 0 the event is not reported, and `poll` passes on every other timeout. -/
theorem hooks_disagree :
    (¬∀ (s : Sched) (c : Co) (epfd maxevents timeout : ℤ) (now : ℕ) (r : Resumption)
      (l : List (Mask×ℤ)),0 < maxevents → r.kernel.ready epfd=some l →
      Agrees (epollWaitF r.kernel epfd maxevents) (epollWait s c epfd maxevents timeout now r)) ∧
    ¬∀ (s : Sched) (c : Co) (epfd timeout : ℤ) (now : ℕ) (r : Resumption) (fds : List Pollfd),
      Agrees (pollF r.kernel fds) (poll s c epfd timeout now r fds) := by
  constructor
  · intro hall
    have hagrees := hall oneOpen 0 3 8 0 0 ⟨oneOpen,[],oneReady⟩ [(1,5)] (by decide) rfl
    exact absurd ((epollWait_agrees_iff (by decide) rfl).mp hagrees).1 (by decide)
  · intro hall
    exact absurd (poll_agrees_iff.mp (hall oneOpen 0 4 (-1) 0 ⟨oneOpen,[3],oneReady⟩ [⟨3,1⟩]))
      (by decide)

end DycoCoroutine.MultiplexHooks
