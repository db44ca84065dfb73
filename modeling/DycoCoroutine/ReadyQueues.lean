import DycoCoroutine.ScheduleAbort

/-!
# The ready queues and released coroutines

No coroutine stands twice in the ready queues, and no container refers to a
released coroutine, in every run in which no wait is woken by both of its
sources and no coroutine is killed between registering and suspending itself.
-/

namespace DycoCoroutine.ReadyQueues

open ScheduleState ScheduleOps ScheduleRun ScheduleControl CoroutineStanding ScheduleEffect
open CoroutineHops ScheduleAbort RunInvariant

variable {s t : Sched} {a : Act} {c : Co}

/-- The coroutine that the next step would insert into a ready queue. Creation
and `cp_obtain` insert nothing once the cid table is gone. -/
def insertion (s : Sched) : Act → Option Co
  | .create _ => if s.status=.aborted then none else some s.nextCo
  | .obtain p _ => do
    let cp ← s.pools p
    if s.status=.aborted ∨ cp.totalsize-cp.activenum≤0 then none else cp.freelist.head?
  | .expire now => s.sleeping.head?.filter fun c => s.key c≤now-s.birth
  | .event =>
    match s.pc with
    | .events (fd::_) => s.fdCoMap.lookup fd
    | _ => none
  | .sleep msecs _ _ => if msecs=0 then s.currThread else none
  | .stop _ => s.currThread
  | _ => none

theorem sound_nodup (hs : Sound s) : (s.urgentReady++s.ready).Nodup :=
  List.nodup_iff_count_le_one.mpr fun c => (hs.settled c).once

/-- Every insertion of a disciplined step in a sound state meets a coroutine
that is in neither queue. -/
theorem insertion_fresh (hs : Sound s) (hd : Disciplined s a)
    (hi : insertion s a=some c) : c∉s.urgentReady++s.ready := by
  have hlife : (s.co c).life≠.live → (standing s c).queued=0 :=
    fun hl => ((hs.settled c).quiet_of_not_live hl).1.queued
  have hrun : s.currThread=some c → (standing s c).queued=0 :=
    fun hr => ((hs.settled c).quiet_of_running (by simp [standing,hr])).queued
  have hq : (standing s c).queued=0 := by
    cases a with
    | create urgent =>
      simp only [insertion] at hi
      split_ifs at hi
      exact hlife (by rw [hs.store.unborn c (Option.some.inj hi).le]; decide)
    | obtain p urgent =>
      obtain ⟨cp,hp,hi⟩ := Option.bind_eq_some_iff.mp hi
      split_ifs at hi
      have hidle := (((hs.store.freelist p cp hp).2 c).mp (List.mem_of_mem_head? hi)).1
      exact hlife (by rw [hidle]; decide)
    | expire now =>
      obtain ⟨hh,hk⟩ := Option.filter_eq_some_iff.mp hi
      obtain ⟨rest,hl⟩ := List.head?_eq_some_iff.mp hh
      have hreg : stillRegistered s c=true := by
        have hf := hd.1
        simp only [firesOnce,hl,Bool.or_eq_true,decide_eq_true_eq] at hf
        exact hf.resolve_left (Nat.not_lt.mpr (by simpa using hk))
      exact (hs.settled c).queued_of_asleep (by simp [standing,hl])
        (waits_of_stillRegistered hreg)
    | event =>
      simp only [insertion] at hi
      split at hi
      next fd rest hp =>
        have hw : (standing s c).waits fd=true := by simpa [standing] using hi
        refine (hs.settled c).queued_of_waits hw fun hk => ?_
        replace hk : (s.co c).cont=.wait fd true := hk
        simpa [firesOnce,hp,hi,timerPending,hk,standing] using hd.1
      · cases hi
    | sleep msecs now depth =>
      simp only [insertion] at hi
      split_ifs at hi
      exact hrun hi
    | stop depth => exact hrun hi
    | _ => cases hi
  exact List.count_eq_zero.mp hq

/-- Nothing is inserted once the scheduler has been aborted. -/
theorem insertion_of_aborted (hc : Control s) (ha : s.status=.aborted) (hp : step s a≠none) :
    insertion s a=none := by
  have hmain : ∃ r,s.pc=.main r := by
    by_contra hm
    simpa [ha] using hc.running fun r hr => hm ⟨r,hr⟩
  obtain ⟨r,hr⟩ := hmain
  have hcur := hc.currThread_eq_none (by simp [hr])
  cases a with
  | obtain p urgent =>
    simp only [insertion,ha,true_or,if_true]
    cases s.pools p <;> rfl
  | expire now => simp [step,hr] at hp
  | event => simp [step,hr] at hp
  | _ => simp [insertion,ha,hcur]

/-- Sound until an abort, and duplicate-free queues after it. -/
theorem tidy_of_reachable (h : Reachable Disciplined s) :
    UntilAbort (fun _ => True) (fun s => (s.urgentReady++s.ready).Nodup) s := by
  refine untilAbort_of_reachable (fun _ _ => id) (fun _ _ _ _ => trivial)
    (fun _ _ _ _ _ _ _ _ => trivial) (fun u c v hs _ _ hv => ?_) (fun u a v hst hc hn _ hm => ?_) h
  · have hq := (queues_schedcallAbort hv).1
    simp only [queues,Prod.mk.injEq] at hq
    rw [hq.1,hq.2.1]
    exact sound_nodup hs
  · rcases moves_of_aborted hc hst hm with ⟨p,n,k,-,rfl⟩|⟨fds,set,pc,-,rfl⟩
    · have hcn := containers_cpCreate (s := u) p n k
      simp only [containers,Prod.mk.injEq] at hcn
      rw [hcn.1,hcn.2.1]
      exact hn
    · exact hn

/-- In every disciplined run each coroutine is at most once in the two ready
queues together, and whatever the next possible step inserts is in neither. -/
theorem ready_at_most_once (h : Reachable Disciplined s) :
    (s.urgentReady++s.ready).Nodup ∧
    ∀ a c,Disciplined s a → step s a≠none → insertion s a=some c → c∉s.urgentReady++s.ready := by
  rcases tidy_of_reachable h with ⟨hs,-⟩|⟨hst,hc,hn⟩
  · exact ⟨sound_nodup hs,fun a c hd _ hi => insertion_fresh hs hd hi⟩
  · refine ⟨hn,fun a c _ hp hi => ?_⟩
    rw [insertion_of_aborted hc hst hp] at hi
    cases hi

/-- A timed wait is woken twice: its descriptor is reported in phase D, and in
the next phase A its timer, which phase D did not cancel, has expired. -/
def wokenTwice : List Act :=
  [.openFd 5,.create false,.run,.loop,.expire 0,.dispatch,.dispatch,.wait 5 10 0 (100,100),
    .poll [5],.event,.event,.loop,.expire 20000]

theorem timed_wait_queued_twice :
    ∃ s,Reachable (fun _ _ => True) s ∧ ¬(s.urgentReady++s.ready).Nodup := by
  have h : (replay step (dycoScheduleCreate 1 0 4096 0) wokenTwice).map
      (fun s => s.urgentReady++s.ready)=some [0,0] := by decide +kernel
  obtain ⟨s,hs,hq⟩ := Option.map_eq_some_iff.mp h
  refine ⟨s,⟨1,0,4096,0,runs_of_replay hs⟩,?_⟩
  rw [hq]
  decide

/-- A disciplined run: one timed wait is woken by its timer and another by its
descriptor, and both coroutines stand in the queue. -/
def wokenOnce : List Act :=
  [.openFd 5,.openFd 6,.create false,.create false,.run,.loop,.expire 0,.dispatch,.dispatch,
    .wait 5 10 0 (100,100),.dispatch,.wait 6 30 0 (100,100),.poll [6],.event,.event,.loop,
    .expire 20000]

theorem ready_at_most_once_wokenOnce :
    ∃ s,replayWhile step Disciplined (dycoScheduleCreate 1 0 4096 0) wokenOnce=some s ∧
      s.ready=[1,0] ∧ (s.urgentReady++s.ready).Nodup ∧
      ∀ a c,Disciplined s a → step s a≠none → insertion s a=some c →
        c∉s.urgentReady++s.ready := by
  have h : (replayWhile step Disciplined (dycoScheduleCreate 1 0 4096 0) wokenOnce).map
      (fun s => s.ready)=some [1,0] := by decide +kernel
  obtain ⟨s,hs,hq⟩ := Option.map_eq_some_iff.mp h
  exact ⟨s,hs,hq,ready_at_most_once ⟨1,0,4096,0,runs_of_replayWhile hs⟩⟩

/-- No container of the scheduler refers to `c`. -/
structure Unreferenced (s : Sched) (c : Co) : Prop where
  urgentReady : c∉s.urgentReady
  ready : c∉s.ready
  sleeping : c∉s.sleeping
  fdCoMap : ∀ fd,s.fdCoMap.lookup fd≠some c
  cidCoMap : ∀ k,s.cidCoMap.lookup k≠some c

/-- A scheduler is aborted only when no coroutine waits in a container. -/
def abortsWhenDone (s : Sched) : Act → Bool
  | .schedAbort => isDone s
  | _ => true

/-- A disciplined step on plain tables that does not abort a scheduler with waiting
coroutines. -/
def Releasing (s : Sched) (a : Act) : Prop :=
  Disciplined s a ∧ abortsWhenDone s a=true ∧ tablesPlain s a=true

instance (s : Sched) (a : Act) : Decidable (Releasing s a) :=
  inferInstanceAs (Decidable (_∧_∧_))

/-- The containers of an aborted scheduler are empty. -/
structure Emptied (s : Sched) : Prop where
  store : Store s
  queues : queues s=([],[],[])
  fdCoMap : ∀ fd,s.fdCoMap.lookup fd=none
  cidCoMap : s.cidCoMap=∅

/-- Sound until an abort, and empty containers after it. -/
theorem clean_of_reachable (h : Reachable Releasing s) :
    UntilAbort (fun _ => True) Emptied s := by
  refine untilAbort_of_reachable (fun _ _ h => h.1) (fun _ _ _ _ => trivial)
    (fun _ _ _ _ _ _ _ _ => trivial) (fun u c v hs _ hd hv => ?_) (fun u a v hst hc he _ hm => ?_) h
  · have hdone : isDone u=true := hd.2.1
    simp only [isDone,Bool.and_eq_true,List.isEmpty_iff] at hdone
    obtain ⟨⟨⟨hfd,hsl⟩,hre⟩,hur⟩ := hdone
    have hab := abandoned_of_abort hs.store hv
    refine ⟨hab.store,?_,hab.fdCoMap fun fd => ?_,hab.cids⟩
    · rw [(queues_schedcallAbort hv).1]
      simp [ScheduleAbort.queues,hsl,hre,hur]
    · rw [AList.lookup_eq_none]
      simp [AList.mem_keys,AList.keys,hfd]
  · obtain ⟨hstore,hq,hfd,hcid⟩ := he
    rcases moves_of_aborted hc hst hm with ⟨p,n,k,hp,rfl⟩|⟨fds,set,pc,-,rfl⟩
    · have hcn := containers_cpCreate (s := u) p n k
      simp only [containers,ScheduleAbort.queues,Prod.mk.injEq] at hcn hq
      refine ⟨(cpCreate_spec hstore hp fun c _ => by simp [standing,hq]).1,?_,?_,?_⟩
      · simp [ScheduleAbort.queues,hcn,hq]
      · simpa [hcn] using hfd
      · simpa [hcn] using hcid
    · exact ⟨⟨hstore.unborn,hstore.freelist,hstore.pooled,hstore.cids⟩,hq,hfd,hcid⟩

/-- In every releasing run no container refers to a released coroutine: a freed
one is nowhere, an idle one once in the freelist of its own pool and in no
other. -/
theorem released_unreferenced (h : Reachable Releasing s)
    (hl : (s.co c).life=.freed ∨ (s.co c).life=.idle) :
    Unreferenced s c ∧
    ((s.co c).life=.freed → ∀ p cp,s.pools p=some cp → c∉cp.freelist) ∧
    ((s.co c).life=.idle → ∃ p cp,(s.co c).cpool=some p ∧ s.pools p=some cp ∧
      cp.freelist.count c=1 ∧ ∀ q cq,s.pools q=some cq → c∈cq.freelist → q=p) := by
  have hne : (s.co c).life≠.live := by
    rcases hl with hl|hl <;> rw [hl] <;> decide
  have hfree : ∀ hs : Store s,((s.co c).life=.freed → ∀ p cp,s.pools p=some cp → c∉cp.freelist) ∧
      ((s.co c).life=.idle → ∃ p cp,(s.co c).cpool=some p ∧ s.pools p=some cp ∧
        cp.freelist.count c=1 ∧ ∀ q cq,s.pools q=some cq → c∈cq.freelist → q=p) := by
    intro hs
    refine ⟨fun hf p cp hp => hs.not_mem_freelist (by rw [hf]; decide) hp,fun hi => ?_⟩
    obtain ⟨p,cp,hp,hcp⟩ := hs.pooled c (.inl hi)
    obtain ⟨hnd,hm⟩ := hs.freelist p cp hcp
    refine ⟨p,cp,hp,hcp,List.count_eq_one_of_mem hnd ((hm c).mpr ⟨hi,hp⟩),fun q cq hq hc => ?_⟩
    have hown := (((hs.freelist q cq hq).2 c).mp hc).2
    rw [hp] at hown
    exact (Option.some.inj hown).symm
  rcases clean_of_reachable h with ⟨hs,-⟩|⟨-,-,hstore,hq,hfd,hcid⟩
  · refine ⟨?_,hfree hs.store⟩
    obtain ⟨⟨hq,ha,hw⟩,-⟩ := (hs.settled c).quiet_of_not_live hne
    have hn := List.count_eq_zero.mp hq
    simp only [List.mem_append,not_or] at hn
    refine ⟨hn.1,hn.2,by simpa [standing] using ha,fun fd => by simpa [standing] using hw fd,?_⟩
    exact fun k hk => hne (hs.store.cids k c hk).1
  · refine ⟨?_,hfree hstore⟩
    simp only [ScheduleAbort.queues,Prod.mk.injEq] at hq
    constructor <;> simp [hq,hfd,hcid]

/-- A coroutine that queues itself by `dyco_coroutine_sleep(0)` and is then
found beyond its stack by the `yield`. -/
def killedAfterQueueing : List Act :=
  [.create false,.run,.loop,.expire 0,.dispatch,.dispatch,.sleep 0 0 (70000,0)]

theorem killed_coroutine_still_queued :
    ∃ s,Reachable (fun _ _ => True) s ∧ (s.co 0).life=.freed ∧ 0∈s.ready := by
  have h : (replay step (dycoScheduleCreate 1 0 4096 0) killedAfterQueueing).map
      (fun s => ((s.co 0).life,s.ready))=some (.freed,[0]) := by decide +kernel
  obtain ⟨s,hs,hq⟩ := Option.map_eq_some_iff.mp h
  simp only [Prod.mk.injEq] at hq
  exact ⟨s,⟨1,0,4096,0,runs_of_replay hs⟩,hq.1,by simp [hq.2]⟩

/-- A releasing run: a pooled coroutine is killed with its timer set, another
coroutine aborts itself, and a third sleeps. -/
def releasedCleanly : List Act :=
  [.poolCreate 0 1 0,.obtain 0 false,.create false,.create false,.run,.loop,.expire 0,.dispatch,
    .dispatch,.sleep 7 0 (70000,0),.dispatch,.abort,.dispatch,.sleep 5 0 (100,100)]

theorem released_unreferenced_releasedCleanly :
    ∃ s,replayWhile step Releasing (dycoScheduleCreate 1 0 4096 0) releasedCleanly=some s ∧
      (s.co 0).life=.idle ∧ s.sleeping=[2] ∧ Unreferenced s 0 ∧
      ((s.co 0).life=.freed → ∀ p cp,s.pools p=some cp → 0∉cp.freelist) ∧
      ((s.co 0).life=.idle → ∃ p cp,(s.co 0).cpool=some p ∧ s.pools p=some cp ∧
        cp.freelist.count 0=1 ∧ ∀ q cq,s.pools q=some cq → 0∈cq.freelist → q=p) := by
  have h : (replayWhile step Releasing (dycoScheduleCreate 1 0 4096 0) releasedCleanly).map
      (fun s => ((s.co 0).life,s.sleeping))=some (.idle,[2]) := by decide +kernel
  obtain ⟨s,hs,hq⟩ := Option.map_eq_some_iff.mp h
  simp only [Prod.mk.injEq] at hq
  exact ⟨s,hs,hq.1,hq.2,
    released_unreferenced ⟨1,0,4096,0,runs_of_replayWhile hs⟩ (.inr hq.1)⟩

end DycoCoroutine.ReadyQueues
