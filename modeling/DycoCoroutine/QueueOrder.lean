import DycoCoroutine.CoroutineHops

/-!
# The order of the ready queues

Whatever a step does, it takes at most the first coroutine of the queue that is
being served and puts others at the tails. So what was taken off a queue and what
is left of it are, in this order, what it held before and what was added. Beside
the queues, each operation is asked whom it can free and whether it touches the
mark that `dyco_schedcall_stop` leaves in a record.
-/

namespace DycoCoroutine.QueueOrder

open ScheduleState ScheduleOps ScheduleRun ScheduleControl CoroutineHops RunInvariant

/-- The ready queue of an urgency. -/
def queue (urgent : Bool) (s : Sched) : List Co := if urgent then s.urgentReady else s.ready

/-- Where a coroutine continues, and its SCHEDCALL and KILLED bits. -/
def trail (r : Coroutine) : Cont×Bool×Bool := (r.cont,r.statusSchedcall,r.statusKilled)

/-- Coroutines are added to the queues at the tail only, nobody outside `gone` is
freed, and no trail outside `moved` changes. -/
structure Keeps (gone moved : Co → Prop) (s t : Sched) : Prop where
  objects : s.nextCo ≤ t.nextCo
  queues : ∀ urgent,queue urgent s<+:queue urgent t
  lives : ∀ d,¬gone d → (t.co d).life=.freed → (s.co d).life=.freed
  trails : ∀ d,¬moved d → trail (t.co d)=trail (s.co d)

variable {gone gone' moved moved' : Co → Prop} {s t u : Sched} {c d : Co} {a : Act} {fd : ℤ}

/-- Nothing happens. -/
theorem Keeps.refl (s : Sched) : Keeps gone moved s s :=
  ⟨le_rfl,fun _ => List.prefix_rfl,fun _ _ h => h,fun _ _ => rfl⟩

/-- Two operations in a row. -/
theorem Keeps.trans (h : Keeps gone moved s t) (k : Keeps gone moved t u) : Keeps gone moved s u where
  objects := h.objects.trans k.objects
  queues urgent := (h.queues urgent).trans (k.queues urgent)
  lives d hd hf := h.lives d hd (k.lives d hd hf)
  trails d hd := (k.trails d hd).trans (h.trails d hd)

/-- More coroutines may be freed than are. -/
theorem Keeps.mono (h : Keeps gone moved s t) (hg : ∀ d,gone d → gone' d) :
    Keeps gone' moved s t :=
  ⟨h.objects,h.queues,fun d hd => h.lives d (mt (hg d) hd),h.trails⟩

/-- An operation that touches neither the queues nor the records. -/
theorem keeps_of_eq (hn : s.nextCo ≤ t.nextCo) (hu : t.urgentReady=s.urgentReady)
    (hr : t.ready=s.ready) (hc : t.co=s.co) : Keeps gone moved s t := by
  refine ⟨hn,fun urgent => ?_,fun d _ h => hc ▸ h,fun d _ => by rw [hc]⟩
  simp only [queue,hu,hr,List.prefix_rfl]

/-- An update of one record that does not free it. -/
theorem keeps_setCo {f : Coroutine → Coroutine}
    (hl : (f (s.co c)).life=.freed → (s.co c).life=.freed)
    (ht : ¬moved c → trail (f (s.co c))=trail (s.co c)) : Keeps gone moved s (s.setCo c f) := by
  refine ⟨le_rfl,fun _ => List.prefix_rfl,fun d _ h => ?_,fun d hm => ?_⟩
  · by_cases hd : d=c
    · subst hd
      rw [Sched.setCo_co,Function.update_self] at h
      exact hl h
    · rwa [Sched.setCo_co,Function.update_of_ne hd] at h
  · by_cases hd : d=c
    · subst hd
      rw [Sched.setCo_co,Function.update_self,ht hm]
    · rw [Sched.setCo_co,Function.update_of_ne hd]

/-- A coroutine is added to the tail of a queue. -/
theorem keeps_append (urgent : Bool) (c : Co)
    (h : t=if urgent then {s with urgentReady := s.urgentReady++[c]}
      else {s with ready := s.ready++[c]}) : Keeps gone moved s t := by
  subst h
  cases urgent with
  | false =>
    refine ⟨le_rfl,fun urgent => ?_,fun _ _ h => h,fun _ _ => rfl⟩
    cases urgent with
    | false => exact List.prefix_append ..
    | true => exact List.prefix_rfl
  | true =>
    refine ⟨le_rfl,fun urgent => ?_,fun _ _ h => h,fun _ _ => rfl⟩
    cases urgent with
    | false => exact List.prefix_rfl
    | true => exact List.prefix_append ..

/-- `insertReady` appends. -/
theorem keeps_insertReady (s : Sched) (c : Co) : Keeps gone moved s (insertReady s c) := by
  have hset : Keeps gone moved s (s.setCo c fun r => {r with statusReady := true}) :=
    keeps_setCo id fun _ => rfl
  exact hset.trans (keeps_append _ c rfl)

/-- A timer concerns neither the queues nor the trails. -/
theorem keeps_schedSleep (s : Sched) (c : Co) (msecs : ℤ) (now : ℕ) :
    Keeps gone moved s (scheduleSchedSleep s c msecs now) := by
  have hdrop : Keeps gone moved s (dropKey s c) := by
    unfold dropKey
    split
    · exact keeps_of_eq le_rfl rfl rfl rfl
    · exact .refl s
  unfold scheduleSchedSleep
  split_ifs
  · exact hdrop
  · have hset : Keeps gone moved (dropKey s c) ((dropKey s c).setCo c fun r => {r with
        sleepUsecs := KeyedSet.firstUnused (dropKey s c).key (dropKey s c).sleeping
          ((dropKey s c).sleeping.length+1) (now-s.birth+msecs.toNat*1000%2^32)
        statusSleeping := true
        flagsExpired := false}) := keeps_setCo id fun _ => rfl
    exact (hdrop.trans hset).trans (keeps_of_eq le_rfl rfl rfl rfl)

/-- Taking an expired sleeper concerns neither the queues nor the trails. -/
theorem keeps_getExpired {now : ℕ} (h : scheduleGetExpired s now=some (c,t)) :
    Keeps gone moved s t := by
  obtain ⟨rest,-,-,rfl⟩ := getExpired_cases h
  have herase : Keeps gone moved s {s with sleeping := s.sleeping.erase c} :=
    keeps_of_eq le_rfl rfl rfl rfl
  refine herase.trans ?_
  exact keeps_setCo id fun _ => rfl

/-- A descriptor that opens concerns no coroutine. -/
theorem keeps_openFd (s : Sched) (fd : ℤ) : Keeps gone moved s (openFd s fd) :=
  keeps_of_eq le_rfl rfl rfl rfl

/-- A descriptor that closes concerns no coroutine. -/
theorem keeps_closeFd (s : Sched) (fd : ℤ) : Keeps gone moved s (closeFd s fd) :=
  keeps_of_eq le_rfl rfl rfl rfl

/-- Cancelling a timer concerns neither the queues nor the trails. -/
theorem keeps_cancelSleep (h : scheduleCancelSleep s c=.ok t) : Keeps gone moved s t := by
  unfold scheduleCancelSleep at h
  split_ifs at h
  · cases h
    have herase : Keeps gone moved s {s with sleeping := s.sleeping.erase c} :=
      keeps_of_eq le_rfl rfl rfl rfl
    exact herase.trans (keeps_setCo id fun _ => rfl)
  · cases h
    exact .refl s

/-- The poller concerns no coroutine. -/
theorem keeps_epollCtlDel (h : epollCtlDel s fd=.ok t) : Keeps gone moved s t := by
  unfold epollCtlDel at h
  split_ifs at h
  cases h
  exact keeps_of_eq le_rfl rfl rfl rfl

/-- Cancelling a wait concerns neither the queues nor the trails. -/
theorem keeps_cancelWait (h : scheduleCancelWait s c fd=.ok t) : Keeps gone moved s t := by
  unfold scheduleCancelWait at h
  split_ifs at h
  · have herase : Keeps gone moved s {s with fdCoMap := s.fdCoMap.erase fd} :=
      keeps_of_eq le_rfl rfl rfl rfl
    exact (herase.trans (keeps_setCo id fun _ => rfl)).trans (keeps_epollCtlDel h)
  · cases h
    exact .refl s

/-- Registering a wait concerns neither the queues nor the trails. -/
theorem keeps_schedWait (h : scheduleSchedWait s c fd=.ok t) : Keeps gone moved s t := by
  obtain ⟨u,hu,h⟩ := bind_eq_ok h
  unfold epollCtlAdd at hu
  split_ifs at hu
  cases hu
  cases h
  have hadd : Keeps gone moved s {s with epollSet := fd::s.epollSet,fdCoMap := s.fdCoMap.insert fd c} :=
    keeps_of_eq le_rfl rfl rfl rfl
  exact hadd.trans (keeps_setCo id fun _ => rfl)

/-- Saving a stack concerns neither the queues nor the trails. -/
theorem keeps_savestk (s : Sched) (c : Co) (depth : ℕ) : Keeps gone moved s (savestk s c depth) := by
  unfold savestk
  split_ifs
  · exact .refl s
  · exact keeps_setCo id fun _ => rfl

/-- Entering a coroutine into the map of cids leaves the queues alone. -/
theorem keeps_register (h : register s c=.ok t) : Keeps gone moved s t := by
  have hcases : ∃ gen map n cid,t=Sched.setCo {s with
      cidGen := gen
      cidCoMap := map
      coroCount := n} c (fun r => {r with cid := cid}) := by
    unfold register at h
    split_ifs at h
    cases h
    exact ⟨_,_,_,_,rfl⟩
  obtain ⟨gen,map,n,cid,rfl⟩ := hcases
  have hreg : Keeps gone moved s {s with cidGen := gen,cidCoMap := map,coroCount := n} :=
    keeps_of_eq le_rfl rfl rfl rfl
  exact hreg.trans (keeps_setCo id fun _ => rfl)

/-- A new coroutine is appended. -/
theorem keeps_queueNew (s : Sched) (c : Co) (urgent : Bool) :
    Keeps gone moved s (queueNew s c urgent) := by
  unfold queueNew
  split_ifs
  · have hset : Keeps gone moved s (s.setCo c fun r => {r with flagsUrgent := true}) :=
      keeps_setCo id fun _ => rfl
    exact hset.trans (keeps_append true c rfl)
  · exact keeps_append false c rfl

/-- A created coroutine is appended, and nobody is freed. -/
theorem keeps_enroll {urgent : Bool} (h : enroll s c urgent=.ok t) : Keeps gone moved s t := by
  obtain ⟨u,hu,h⟩ := bind_eq_ok h
  cases h
  refine ((keeps_register hu).trans (keeps_queueNew u c urgent)).trans ?_
  unfold wakeScheduler
  split_ifs
  · exact keeps_of_eq le_rfl rfl rfl rfl
  · exact .refl _

/-- The end of a coroutine frees at most itself. -/
theorem keeps_coroAbort (h : coroAbort s c=.ok t) : Keeps (·=c) moved s t := by
  obtain ⟨heq,hother,-⟩ := coroAbort_endsOnly h
  have hself : trail (t.co c)=trail (s.co c) := by
    rcases coroAbort_cases h with rfl|⟨u,hu,ht⟩
    · rfl
    obtain ⟨map,fds,set,b,rfl,-⟩ := releaseCoro_cases hu
    rcases ht with ⟨p,rfl⟩|rfl
    · simp [trail]
    · simp [trail]
  refine ⟨?_,fun urgent => ?_,fun d hd hf => ?_,fun d _ => ?_⟩
  · rw [heq]
  · have hq : queue urgent t=queue urgent s := by rw [heq]; rfl
    exact hq ▸ List.prefix_rfl
  · rwa [hother d hd] at hf
  · by_cases hd : d=c
    · exact hd ▸ hself
    · rw [hother d hd]

/-- The abort of a coroutine by its cid takes nobody out of the queues. -/
theorem keeps_cidDelete {cid : ℤ} (h : cidDeleteWithAbort s cid=.ok t) :
    Keeps (fun _ => True) moved s t := by
  rcases cidDelete_cases h with rfl|⟨c,u,-,-,hu,rfl⟩
  · exact .refl _
  · exact ((keeps_coroAbort hu).mono fun _ _ => trivial).trans (keeps_of_eq le_rfl rfl rfl rfl)

/-- `resume` frees only its own coroutine, unless that was killed. -/
theorem keeps_resumeReturn (h : resumeReturn s c=.ok t) :
    Keeps (fun d => (s.co c).statusKilled=true ∨ d=c) moved s t := by
  have hthread : ∀ gone,Keeps gone moved s (s.setThread none) :=
    fun _ => keeps_of_eq le_rfl rfl rfl rfl
  unfold resumeReturn at h
  dsimp only at h
  split_ifs at h with hk he
  · obtain ⟨u,hu,h⟩ := bind_eq_ok h
    have hall := ((hthread _).trans (keeps_cancelSleep hu)).trans (keeps_cidDelete h)
    exact hall.mono fun d _ => .inl hk
  · obtain ⟨u,hu,h⟩ := bind_eq_ok h
    have hone := ((hthread _).trans (keeps_cancelSleep hu)).trans (keeps_coroAbort h)
    exact hone.mono fun d hd => .inr hd
  · cases h
    exact hthread _

/-- The rest of a round concerns the program counter only. -/
theorem keeps_leaveCo (s : Sched) (c : Co) : Keeps gone moved s (leaveCo s c) := by
  obtain ⟨pc,h⟩ := leaveCo_eq s c
  rw [h]
  exact keeps_of_eq le_rfl rfl rfl rfl

/-- Back in the loop, only the coroutine that ran is freed, unless it was killed. -/
theorem keeps_backToLoop (h : backToLoop s c=.ok t) :
    Keeps (fun d => (s.co c).statusKilled=true ∨ d=c) moved s t := by
  obtain ⟨u,hu,h⟩ := bind_eq_ok h
  cases h
  exact (keeps_resumeReturn hu).trans (keeps_leaveCo u c)

/-- The trail of the coroutine that yields changes. -/
theorem keeps_yield (s : Sched) (c : Co) (depth : ℕ×ℕ) (k : Cont) (hm : moved c) :
    Keeps gone moved s (yield s c depth k) := by
  unfold yield
  split_ifs
  · exact keeps_setCo id fun h => absurd hm h
  · exact keeps_setCo id fun h => absurd hm h
  · exact (keeps_savestk s c depth.2).trans (keeps_setCo id fun h => absurd hm h)

/-- A yield that finds the stack in order changes neither of the two bits. -/
theorem yield_bits {depth : ℕ×ℕ} (h : checkstk s c depth.1=false) (k : Cont) :
    ((yield s c depth k).co c).statusKilled=(s.co c).statusKilled := by
  have hkeep : Keeps (fun _ => False) (fun _ => False) s (savestk s c depth.2) :=
    keeps_savestk s c depth.2
  have hsave : ((savestk s c depth.2).co c).statusKilled=(s.co c).statusKilled :=
    congrArg (fun p => p.2.2) (hkeep.trails c id)
  simp only [yield,h,Bool.false_eq_true,if_false]
  split_ifs
  · simp
  · simpa using hsave

/-- The running coroutine was not killed and has not overflowed its stack. -/
def survives (s : Sched) (depth : ℕ) : Bool :=
  s.currThread.all fun c => !(s.co c).statusKilled && !checkstk s c depth

/-- No stop, no abort, and the running coroutine is not killed. -/
def undisturbed (s : Sched) : Act → Bool
  | .sleep _ _ depth => survives s depth.1
  | .wait _ _ _ depth => survives s depth.1
  | .exit depth => survives s depth.1
  | .checkStack depth => survives s depth
  | .abort => false
  | .stop _ => false
  | .schedAbort => false
  | _ => true

/-- The calls by which a coroutine gives up control. -/
def givesUp : Act → Bool
  | .sleep _ _ _ => true
  | .wait _ _ _ _ => true
  | .exit _ => true
  | .abort => true
  | .checkStack _ => true
  | .stop _ => true
  | .schedAbort => true
  | _ => false

/-- `cp_obtain` takes the coroutine from its pool. -/
def handedOut (s : Sched) (a : Act) (d : Co) : Prop :=
  ∃ p urgent cp,a=.obtain p urgent ∧ s.pools p=some cp ∧ cp.freelist.head?=some d

/-- The coroutines whose trail a step may change: the one that gives up control, new
ones, and the one that is taken from its pool. -/
def touched (s : Sched) (a : Act) (d : Co) : Prop :=
  givesUp a=true ∧ s.currThread=some d ∨ s.nextCo ≤ d ∨ handedOut s a d

/-- Whom a step may free. -/
def endangered (s : Sched) (a : Act) (d : Co) : Prop :=
  undisturbed s a=true → s.currThread=some d

/-- A call survives when its coroutine is neither killed nor out of stack. -/
theorem survives_iff (hr : Running s c) {depth : ℕ} :
    survives s depth=true ↔ (s.co c).statusKilled=false ∧ checkstk s c depth=false := by
  simp [survives,hr.2]

/-- An operation before a `yield` changes neither the bit nor the check. -/
theorem survives_of_keeps {now depth : ℕ} (hr : Running s c)
    (hu : Keeps (fun _ => False) (fun _ => False) (s.setClock now) u)
    (hc : checkstk u c depth=checkstk (s.setClock now) c depth) (h : survives s depth=true) :
    (u.co c).statusKilled=false ∧ checkstk u c depth=false := by
  obtain ⟨hk,hs⟩ := (survives_iff hr).mp h
  have ht := congrArg (fun p => p.2.2) (hu.trails c id)
  exact ⟨ht.trans hk,hc.trans hs⟩

/-- A call that ends in a `yield`. -/
theorem keeps_suspend {depth : ℕ×ℕ} {k : Cont} (hr : Running s c) (hg : givesUp a=true)
    (hu : Keeps (endangered s a) (touched s a) s u)
    (hs : undisturbed s a=true → (u.co c).statusKilled=false ∧ checkstk u c depth.1=false)
    (h : backToLoop (yield u c depth k) c=.ok t) :
    Keeps (endangered s a) (touched s a) s t := by
  have hy : Keeps (endangered s a) (touched s a) s (yield u c depth k) :=
    hu.trans (keeps_yield u c depth k (.inl ⟨hg,hr.2⟩))
  refine hy.trans ((keeps_backToLoop h).mono fun d hd hq => ?_)
  obtain ⟨hk,hc⟩ := hs hq
  rcases hd with hd|rfl
  · rw [yield_bits hc,hk] at hd
    cases hd
  · exact hr.2

/-- A kill frees what the step is declared to endanger. -/
theorem keeps_kill (hr : Running s c) (hg : givesUp a=true) (ha : undisturbed s a=false)
    (h : coroutineKill s c=.ok t) : Keeps (endangered s a) (touched s a) s t := by
  have hset : Keeps (endangered s a) (touched s a) s
      (s.setCo c fun r => {r with statusKilled := true,statusRunning := false}) :=
    keeps_setCo id fun hm => absurd (.inl ⟨hg,hr.2⟩) hm
  refine hset.trans ((keeps_backToLoop h).mono fun d _ hq => ?_)
  rw [ha] at hq
  cases hq

/-- A new object has not been freed. -/
theorem keeps_newcoro {life : Life} (hl : life≠.freed) (hm : moved s.nextCo) :
    Keeps gone moved s (newcoro s life).2 := by
  have hnext : Keeps gone moved s {s with nextCo := s.nextCo+1} :=
    keeps_of_eq (Nat.le_succ _) rfl rfl rfl
  have hset : Keeps gone moved {s with nextCo := s.nextCo+1}
      (Sched.setCo {s with nextCo := s.nextCo+1} s.nextCo fun _ => newRecord life) :=
    keeps_setCo (fun h => absurd h hl) fun h => absurd hm h
  exact hnext.trans hset

/-- A new member of a pool is not queued. -/
theorem keeps_cpAdd (s : Sched) (p stacksize : ℕ) (hm : moved s.nextCo) :
    Keeps gone moved s (cpAdd s p stacksize) := by
  have hnew : Keeps gone moved s (newcoro s .idle).2 := keeps_newcoro (by decide) hm
  have hpool : Keeps gone moved (newcoro s .idle).2 ((newcoro s .idle).2.setPool p
      fun cp => {cp with freelist := s.nextCo::cp.freelist}) := keeps_of_eq le_rfl rfl rfl rfl
  have hlife : (pooledRecord s.pageSize p stacksize).life=.idle := by
    unfold pooledRecord
    split_ifs <;> rfl
  refine (hnew.trans hpool).trans ?_
  unfold cpAdd
  exact keeps_setCo (fun h => by cases hlife.symm.trans h) fun h => absurd hm h

/-- The members of a new pool are not queued. -/
theorem keeps_cpCreate (p : ℕ) (totalsize : ℤ) (stacksize : ℕ)
    (hm : ∀ d,s.nextCo ≤ d → moved d) :
    Keeps gone moved s (cpCreate s p totalsize stacksize) := by
  have hfill : ∀ n,∀ s : Sched,(∀ d,s.nextCo ≤ d → moved d) →
      Keeps gone moved s (cpFill p stacksize n s) := by
    intro n
    induction n with
    | zero => exact fun s _ => .refl s
    | succ n ih =>
      intro s hm
      have hnext : s.nextCo ≤ (cpAdd s p stacksize).nextCo := Nat.le_succ s.nextCo
      exact (keeps_cpAdd s p stacksize (hm _ le_rfl)).trans
        (ih _ fun d hd => hm d (hnext.trans hd))
  unfold cpCreate
  split_ifs
  · exact .refl s
  · have hpool : Keeps gone moved s
        {s with pools := Function.update s.pools p (some ⟨totalsize,0,stacksize,[]⟩)} :=
      keeps_of_eq le_rfl rfl rfl rfl
    exact hpool.trans (hfill _ _ hm)

/-- An obtained coroutine is appended, and only its trail is new. -/
theorem keeps_cpObtain {p : ℕ} {urgent : Bool} (h : cpObtain s p urgent=.ok t)
    (hm : ∀ cp d,s.pools p=some cp → cp.freelist.head?=some d → moved d) :
    Keeps gone moved s t := by
  rcases cpObtain_cases h with rfl|⟨cp,c,rest,hp,-,hl,h⟩
  · exact .refl t
  · have hc : moved c := hm cp c hp (by rw [hl]; rfl)
    have hpool : Keeps gone moved s (s.setPool p fun cp =>
        {cp with freelist := rest,activenum := cp.activenum+1}) := keeps_of_eq le_rfl rfl rfl rfl
    exact (hpool.trans (keeps_setCo (fun h => by cases h) fun h => absurd hc h)).trans
      (keeps_enroll h)

/-- A stop appends its caller and marks it. -/
theorem keeps_stopSuspend (s : Sched) (c : Co) (depth : ℕ) (hm : moved c) :
    Keeps gone moved s (stopSuspend s c depth) := by
  have hset : Keeps gone moved s (s.setCo c fun r =>
      {r with statusRunning := false,statusSchedcall := true}) :=
    keeps_setCo id fun h => absurd hm h
  refine ((hset.trans (keeps_insertReady _ c)).trans (keeps_savestk _ c depth)).trans ?_
  unfold stopSuspend
  exact keeps_setCo id fun h => absurd hm h

/-- An abort takes nobody out of the queues. -/
theorem keeps_scheduleAbort (h : scheduleAbort s=.ok t) : Keeps (fun _ => True) moved s t := by
  obtain ⟨u,hu,h⟩ := bind_eq_ok h
  cases h
  have hfold : Keeps (fun _ => True) moved s u := by
    refine cidClear_invariant (fun v => Keeps (fun _ => True) moved s v) ?_ ?_ hu
    · exact fun v d v' hv hf => hv.trans ((keeps_coroAbort hf).mono fun _ _ => trivial)
    · exact .refl s
  exact hfold.trans (keeps_of_eq le_rfl rfl rfl rfl)

/-- What a step keeps, unless it enters a coroutine. -/
theorem keeps_of_moves (h : Moves s a t) (ha : a≠.dispatch) :
    Keeps (endangered s a) (touched s a) s t := by
  cases h with
  | create hu h => exact (keeps_newcoro (by decide) (.inr (.inl le_rfl))).trans (keeps_enroll h)
  | poolCreate hu hp => exact keeps_cpCreate _ _ _ fun d hd => .inr (.inl hd)
  | obtain hu h =>
    exact keeps_cpObtain h fun cp d hp hd => .inr (.inr ⟨_,_,cp,rfl,hp,hd⟩)
  | setUrgent hu h =>
    rcases setUrgent_cases h with rfl|⟨c,rfl⟩
    · exact .refl t
    · exact keeps_setCo id fun _ => rfl
  | openFd => exact keeps_openFd s _
  | closeFd => exact keeps_closeFd s _
  | run hu h =>
    unfold dycoScheduleRun at h
    split at h <;> cases h <;> exact keeps_of_eq le_rfl rfl rfl rfl
  | loop hp =>
    unfold loopHead
    split_ifs <;> exact keeps_of_eq le_rfl rfl rfl rfl
  | @expire now _ hp hn h =>
    have hclock : Keeps (endangered s (.expire now)) (touched s (.expire now)) s (s.setClock now) :=
      keeps_of_eq le_rfl rfl rfl rfl
    rcases phaseA_cases h with ⟨-,rfl⟩|⟨c,u,hg,-,rfl⟩
    · exact hclock.trans (keeps_of_eq le_rfl rfl rfl rfl)
    · exact (hclock.trans (keeps_getExpired hg)).trans (keeps_insertReady u c)
  | dispatch hp h => exact absurd rfl ha
  | poll hp => exact keeps_of_eq le_rfl rfl rfl rfl
  | eventsDone hp => exact keeps_of_eq le_rfl rfl rfl rfl
  | @event fd rest _ hp h =>
    have hgoto : Keeps (endangered s .event) (touched s .event) s (s.goto (.events rest)) :=
      keeps_of_eq le_rfl rfl rfl rfl
    rcases phaseD_cases h with rfl|⟨c,-,h⟩
    · exact hgoto
    · exact (hgoto.trans (keeps_insertReady _ _)).trans (keeps_cancelWait h)
  | @sleep c msecs now depth _ hr hn h =>
    have hclock : Keeps (endangered s (.sleep msecs now depth)) (touched s (.sleep msecs now depth))
        s (s.setClock now) := keeps_of_eq le_rfl rfl rfl rfl
    by_cases h0 : msecs=0
    · simp only [dycoCoroutineSleep,h0,if_true] at h
      refine keeps_suspend hr rfl (hclock.trans (keeps_insertReady _ c)) (fun hq => ?_) h
      exact survives_of_keeps hr (keeps_insertReady (s.setClock now) c)
        (checkstk_insertReady (s := s.setClock now) _) hq
    · simp only [dycoCoroutineSleep,h0,if_false] at h
      refine keeps_suspend hr rfl (hclock.trans (keeps_schedSleep _ c _ now)) (fun hq => ?_) h
      exact survives_of_keeps hr (keeps_schedSleep (s.setClock now) c _ now)
        (checkstk_schedSleep (s := s.setClock now) _ _ _) hq
  | @wait c fd timeout now depth _ hr hn ht h =>
    obtain ⟨u,hu,h⟩ := bind_eq_ok h
    have hclock : Keeps (endangered s (.wait fd timeout now depth))
        (touched s (.wait fd timeout now depth)) s (s.setClock now) := keeps_of_eq le_rfl rfl rfl rfl
    refine keeps_suspend hr rfl ((hclock.trans (keeps_schedWait hu)).trans (keeps_schedSleep u c _ now))
      (fun hq => ?_) h
    exact survives_of_keeps hr ((keeps_schedWait hu).trans (keeps_schedSleep u c timeout now))
      ((checkstk_schedSleep _ _ _).trans (checkstk_schedWait hu _)) hq
  | @exit c depth _ hr h =>
    refine keeps_suspend hr rfl (keeps_setCo id fun _ => rfl) (fun hq => ?_) h
    obtain ⟨hk,hc⟩ := (survives_iff hr).mp hq
    have hsame : checkstk (s.setCo c fun r => {r with statusExited := true}) c depth.1=
        checkstk s c depth.1 := by simp [checkstk]
    exact ⟨by simpa using hk,hsame.trans hc⟩
  | abort hr h => exact keeps_kill hr rfl rfl h
  | @checkStack c depth _ hr h =>
    split_ifs at h with hc
    · refine keeps_kill hr rfl ?_ h
      simp [undisturbed,survives,hr.2,hc]
    · cases h
      exact .refl s
  | @stop c depth hr =>
    refine ((keeps_stopSuspend s c depth (.inl ⟨rfl,hr.2⟩)).trans ?_).trans (keeps_leaveCo _ c)
    exact keeps_of_eq le_rfl rfl rfl rfl
  | @schedAbort c t hr h =>
    obtain ⟨u,hu,h⟩ := bind_eq_ok h
    cases h
    have hset : Keeps (fun _ => True) (touched s .schedAbort) s (s.setCo c fun r =>
        {r with statusRunning := false,statusSchedcall := true}) :=
      keeps_setCo id fun hm => absurd (.inl ⟨rfl,hr.2⟩) hm
    refine ((hset.trans (keeps_scheduleAbort hu)).trans (keeps_leaveCo u c)).mono fun d _ hq => ?_
    cases hq
  | @epollInit c fd hr hf =>
    unfold dycoEpollInit
    split_ifs
    · exact .refl s
    · refine (keeps_openFd s fd).trans ?_
      exact keeps_setCo id fun _ => rfl
  | epollDestroy hr =>
    unfold dycoEpollDestroy
    split_ifs
    · refine .trans ?_ (keeps_closeFd _ _)
      exact keeps_setCo id fun _ => rfl
    · exact .refl s
  | @signalInit c fd hr hf =>
    unfold dycoSignalInit
    split_ifs
    · exact .refl s
    · refine (keeps_openFd s fd).trans ?_
      exact keeps_setCo id fun _ => rfl
  | signalDestroy hr =>
    unfold dycoSignalDestroy
    split_ifs
    · refine .trans ?_ (keeps_closeFd _ _)
      exact keeps_setCo id fun _ => rfl
    · exact .refl s

/-- The coroutine that a step takes off the queue of an urgency. -/
def taken (urgent : Bool) (s : Sched) (a : Act) : Option Co :=
  match a,s.pc with
  | .dispatch,.queue urgent' _ _ => if urgent'=urgent then (queue urgent s).head? else none
  | _,_ => none

/-- The entry into a coroutine clears its SCHEDCALL bit if it continues behind
`dyco_schedcall_stop`, and changes nothing else that is observed here. -/
theorem enterCo_keeps (h : enterCo s c=.ok t) :
    Keeps (fun _ => False) (·=c) s t ∧ (t.co c).cont=(s.co c).cont ∧
      (t.co c).statusSchedcall=((s.co c).statusSchedcall && (s.co c).cont≠.stop) := by
  have hact : Keeps (fun _ => False) (fun _ => False) s (activate s c) := by
    have hthread : Keeps (fun _ => False) (fun _ => False) s (s.setThread (some c)) :=
      keeps_of_eq le_rfl rfl rfl rfl
    refine hthread.trans ?_
    exact keeps_setCo id fun _ => rfl
  have hsame : ∀ t,Keeps (fun _ => False) (fun _ => False) s t → (s.co c).cont≠.stop →
      Keeps (fun _ => False) (·=c) s t ∧ (t.co c).cont=(s.co c).cont ∧
        (t.co c).statusSchedcall=((s.co c).statusSchedcall && (s.co c).cont≠.stop) := by
    intro t ht hne
    have htrail := ht.trails c id
    simp only [trail,Prod.mk.injEq] at htrail
    exact ⟨⟨ht.objects,ht.queues,ht.lives,fun d _ => ht.trails d id⟩,htrail.1,by simp [htrail.2.1,hne]⟩
  unfold enterCo at h
  split at h
  next hk =>
    cases h
    exact hsame _ hact (by simp [hk])
  next hk =>
    cases h
    exact hsame _ hact (by simp [hk])
  next hk =>
    obtain ⟨u,hu,h⟩ := bind_eq_ok h
    exact hsame t ((hact.trans (keeps_cancelSleep hu)).trans (keeps_cancelWait h)) (by simp [hk])
  next hk =>
    cases h
    have hset : Keeps (fun _ => False) (·=c) (activate s c)
        ((activate s c).setCo c fun r => {r with statusSchedcall := false}) :=
      keeps_setCo id fun hm => absurd rfl hm
    have hact' : Keeps (fun _ => False) (·=c) s (activate s c) :=
      ⟨hact.objects,hact.queues,hact.lives,fun d _ => hact.trails d id⟩
    exact ⟨hact'.trans hset,by simp [activate],by simp [hk]⟩

/-- A round of phase B or C takes the first coroutine `c` off the queue and enters
it. -/
structure Dispatched (s t : Sched) (urgent : Bool) (last : Option Co) (idx : ℕ) (c : Co)
    (rest : List Co) : Prop where
  objects : s.nextCo ≤ t.nextCo
  front : queue urgent s=c::rest
  rest : rest<+:queue urgent t
  other : queue (!urgent) s<+:queue (!urgent) t
  control : controlPoint t=(.inCo urgent last idx,s.status,some c)
  alive : (s.co c).life≠.freed
  lives : ∀ d,(t.co d).life=.freed → (s.co d).life=.freed
  trails : ∀ d≠c,trail (t.co d)=trail (s.co d)
  cont : (t.co c).cont=(s.co c).cont
  schedcall : (t.co c).statusSchedcall=((s.co c).statusSchedcall && (s.co c).cont≠.stop)

/-- Taking a coroutine off a queue clears its READY bit. -/
theorem co_popQueue (s : Sched) (urgent : Bool) (c : Co) (rest : List Co) :
    (popQueue s urgent c rest).co=(s.setCo c fun r => {r with statusReady := false}).co := by
  unfold popQueue
  split_ifs <;> rfl

/-- What the entry into a coroutine of a queue comes to. -/
theorem dispatched_of_enterCo {urgent : Bool} {last : Option Co} {idx : ℕ} {rest : List Co}
    (hq : queue urgent s=c::rest) (hl : (s.co c).life≠.freed)
    (h : enterCo ((popQueue s urgent c rest).goto (.inCo urgent last idx)) c=.ok t) :
    Dispatched s t urgent last idx c rest := by
  obtain ⟨hk,hcont,hcall⟩ := enterCo_keeps h
  set u := (popQueue s urgent c rest).goto (.inCo urgent last idx) with hu
  have hco : ∀ d,(u.co d).life=(s.co d).life ∧ trail (u.co d)=trail (s.co d) := by
    intro d
    rw [hu,Sched.goto_co,co_popQueue]
    by_cases hd : d=c
    · subst hd
      simp [trail]
    · simp [hd]
  have hqueue : queue urgent u=rest ∧ queue (!urgent) u=queue (!urgent) s := by
    cases urgent <;> exact ⟨rfl,rfl⟩
  have hnext : u.nextCo=s.nextCo := by
    cases urgent <;> rfl
  have htrail := (hco c).2
  simp only [trail,Prod.mk.injEq] at htrail
  refine ⟨hnext ▸ hk.objects,hq,hqueue.1 ▸ hk.queues urgent,hqueue.2 ▸ hk.queues (!urgent),?_,hl,
    fun d hd => ?_,fun d hd => (hk.trails d hd).trans (hco d).2,hcont.trans htrail.1,?_⟩
  · have hcontrol := control_enterCo h
    rwa [hu,Sched.goto_pc,Sched.goto_status,status_eq control_popQueue] at hcontrol
  · exact (hco d).1 ▸ hk.lives d id hd
  · rw [hcall,htrail.1,htrail.2.1]

/-- What a round of phase B or C does. -/
theorem dispatch_cases (h : Moves s .dispatch t) : ∃ urgent last idx,s.pc=.queue urgent last idx ∧
    (queue urgent s=[] ∧ t=endPhase s urgent ∨ ∃ c rest,Dispatched s t urgent last idx c rest) := by
  cases h with
  | @dispatch urgent last idx _ hp h =>
    refine ⟨urgent,last,idx,hp,?_⟩
    rcases phaseBC_cases h with ⟨hq,rfl⟩|⟨c,rest,hq,hl,h⟩
    · exact .inl ⟨hq,rfl⟩
    · exact .inr ⟨c,rest,dispatched_of_enterCo hq hl h⟩

/-- Leaving a phase leaves the queues alone. -/
theorem queue_endPhase (s : Sched) (urgent urgent' : Bool) :
    queue urgent' (endPhase s urgent)=queue urgent' s := by
  unfold endPhase startPhase
  split_ifs <;> rfl

/-- One step: what is taken off a queue and what is left of it are what it held and
what is added. -/
theorem fifo_of_moves (h : Moves s a t) (urgent : Bool) :
    ∃ new,(taken urgent s a).toList++queue urgent t=queue urgent s++new := by
  by_cases ha : a=.dispatch
  · subst ha
    obtain ⟨urgent',last,idx,hp,⟨hq,rfl⟩|⟨c,rest,hd⟩⟩ := dispatch_cases h
    · refine ⟨[],?_⟩
      simp only [taken,hp,queue_endPhase]
      split_ifs with hu
      · rw [← hu,hq]
        rfl
      · simp
    · by_cases hu : urgent'=urgent
      · subst hu
        obtain ⟨new,hnew⟩ := hd.rest
        refine ⟨new,?_⟩
        simp [taken,hp,hd.front,← hnew]
      · obtain rfl : (!urgent')=urgent := by
          cases urgent' <;> cases urgent <;> simp_all
        obtain ⟨new,hnew⟩ := hd.other
        refine ⟨new,?_⟩
        simp [taken,hp,← hnew]
  · obtain ⟨new,hnew⟩ := (keeps_of_moves h ha).queues urgent
    have htaken : taken urgent s a=none := by
      unfold taken
      split
      · exact absurd rfl ha
      · rfl
    exact ⟨new,by rw [htaken,hnew]; rfl⟩

/-- The phase of an urgency is going on. -/
def serving (urgent : Bool) : Pc → Bool
  | .queue urgent' _ _ => urgent'=urgent
  | .inCo urgent' _ _ => urgent'=urgent
  | _ => false

/-- The rounds of `dyco_schedule_run` itself. -/
def ofLoop : Act → Bool
  | .loop => true
  | .expire _ => true
  | .dispatch => true
  | .poll _ => true
  | .event => true
  | _ => false

/-- The loop takes its rounds between calls of the program, and only then. -/
theorem ofLoop_eq (h : Moves s a t) : ofLoop a=inPhase s.pc := by
  have huser : inUserCode s=true → false=inPhase s.pc := by
    unfold inUserCode inPhase
    cases s.pc <;> simp
  have hrun : ∀ {c},Running s c → false=inPhase s.pc := by
    rintro c ⟨⟨urgent,last,idx,hp⟩,-⟩
    rw [hp]
    rfl
  cases h with
  | create hu => exact huser hu
  | poolCreate hu => exact huser hu
  | obtain hu => exact huser hu
  | setUrgent hu => exact huser hu
  | openFd hu => exact huser hu
  | closeFd hu => exact huser hu
  | run hu => exact huser hu
  | loop hp => rw [hp]; rfl
  | expire hp => rw [hp]; rfl
  | dispatch hp => rw [hp]; rfl
  | poll hp => rw [hp]; rfl
  | eventsDone hp => rw [hp]; rfl
  | event hp => rw [hp]; rfl
  | sleep hr => exact hrun hr
  | wait hr => exact hrun hr
  | exit hr => exact hrun hr
  | abort hr => exact hrun hr
  | checkStack hr => exact hrun hr
  | stop hr => exact hrun hr
  | schedAbort hr => exact hrun hr
  | epollInit hr => exact hrun hr
  | epollDestroy hr => exact hrun hr
  | signalInit hr => exact hrun hr
  | signalDestroy hr => exact hrun hr

/-- Only a round of phase B or C makes a coroutine the current thread. -/
theorem currThread_of_moves (h : Moves s a t) (ha : a≠.dispatch) :
    t.currThread=s.currThread ∨ t.currThread=none := by
  have hloop := ofLoop_eq h
  cases flow_of_moves h with
  | stays hc => exact .inl (currThread_eq hc)
  | admits _ hc => exact .inl hc
  | starts _ hc => exact .inl (congrArg (fun p => p.2.2) hc)
  | refuses _ hc => exact .inl (congrArg (fun p => p.2.2) hc)
  | finishes _ _ hc => exact .inl (congrArg (fun p => p.2.2) hc)
  | proceeds _ _ hc => exact .inl (congrArg (fun p => p.2.2) hc)
  | leaves _ _ hc _ ht =>
    subst ht
    exact .inr ((control_leaveCo _ _).2.trans hc)
  | enters hs =>
    rw [hs] at hloop
    left
    cases h with
    | dispatch => exact absurd rfl ha
    | loop hp =>
      unfold loopHead
      split_ifs <;> rfl
    | expire hp hn h =>
      rcases phaseA_cases h with ⟨-,rfl⟩|⟨c,u,hg,-,rfl⟩
      · rfl
      · rw [currThread_eq control_insertReady,currThread_eq (control_getExpired hg)]
        rfl
    | poll => rfl
    | eventsDone => rfl
    | event hp h => exact congrArg (fun p => p.2.2) (control_phaseD h)
    | _ => cases hloop

end DycoCoroutine.QueueOrder
