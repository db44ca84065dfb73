import DycoCoroutine.DescriptorEntry
import DycoCoroutine.EventFd

/-!
# Waiting for an event counter

The semaphore, the wait group and the channels block a coroutine on an event descriptor of
its own. Here the scheduler meets the counters behind such descriptors: the kernel reports
a counter only when it is not zero. A coroutine that waits without a timer is registered,
or it is queued and its counter has been written to. So it is resumed only after a write.
-/

namespace DycoCoroutine.NotifyWait

open ScheduleState ScheduleOps ScheduleRun ScheduleControl CoroutineStanding ScheduleEffect
open CoroutineHops ScheduleAbort EpollRegistration DescriptorEntry RunInvariant EventFd

variable {s t u : Sched} {a : Act} {c d : Co} {fd : ℤ} {timed : Bool} {table table' : Table}

/-- `c` is suspended in a wait for the counter `fd`, which no other coroutine waits for. It
is registered or queued, and without a timer it is queued only if the counter has been
written to. -/
structure Parked (table : Table) (fd : ℤ) (c : Co) (timed : Bool) (s : Sched) : Prop where
  counter : ∃ n,table fd=some (.event n)
  cont : (s.co c).cont=.wait fd timed
  live : (s.co c).life=.live
  suspended : s.currThread≠some c
  sole : ∀ d,s.fdCoMap.lookup fd=some d → d=c
  held : s.fdCoMap.lookup fd=some c ∨
    c∈s.urgentReady++s.ready ∧ (timed=false → (eventfdRead table fd).isSome=true)

/-- The events in hand are no counters at zero. -/
def Reported (table : Table) (s : Sched) : Prop :=
  ∀ fds,s.pc=.events fds → ∀ fd∈fds,table fd≠some (.event 0)

/-- What is written to a counter stays readable. -/
theorem Parked.of_table (h : Parked table fd c timed s)
    (hcounter : ∀ n,table fd=some (.event n) → ∃ k,table' fd=some (.event (n+k))) :
    Parked table' fd c timed s := by
  obtain ⟨n,hn⟩ := h.counter
  obtain ⟨k,hk⟩ := hcounter n hn
  have hread : (eventfdRead table fd).isSome=true → (eventfdRead table' fd).isSome=true := by
    simp only [eventfdRead,hn,hk]
    split_ifs <;> simp
    omega
  exact ⟨⟨_,hk⟩,h.cont,h.live,h.suspended,h.sole,
    h.held.imp_right fun hq => ⟨hq.1,fun ht => hread (hq.2 ht)⟩⟩

/-- What can happen to a coroutine in a wait: it is resumed from a ready queue, or it stays
suspended, and its registration goes only when its descriptor is reported. -/
theorem hop_of_wait {ρ : Known} {σ τ : Standing} (hρ : ρ.fds) (hl : σ.life=.live)
    (hr : σ.running=false) (hk : σ.cont=.wait fd timed)
    (hheld : σ.waits fd=true ∨ 0<σ.queued) (h : Hop ρ σ τ) :
    τ.running=true ∧ 0<σ.queued ∨
    (τ.running=false ∧ τ.life=.live ∧ τ.cont=.wait fd timed ∧ σ.queued≤τ.queued) ∧
      (τ.waits fd=σ.waits fd ∨ ρ.reports fd ∧ 0<τ.queued) := by
  have hquiet : ¬Quiet σ := by
    intro hq
    rcases hheld with hw|hq'
    · simp [hq.waits fd] at hw
    · simp [hq.queued] at hq'
  cases h with
  | born hu => simp [hl] at hu
  | shelved hu => simp [hl] at hu
  | obtained hi => simp [hl] at hi
  | entered hq hne => exact absurd hk (hne fd timed)
  | returned fd' timed' hq => exact .inl ⟨rfl,hq⟩
  | requeued k hrun => simp [hr] at hrun
  | slept hrun => simp [hr] at hrun
  | overslept hrun => simp [hr] at hrun
  | blocked fd' timed' hrun => simp [hr] at hrun
  | released life doomed k hlive hq => exact absurd hq hquiet
  | stay => exact .inr ⟨⟨hr,hl,hk,le_rfl⟩,.inl rfl⟩
  | expired ha => exact .inr ⟨⟨hr,hl,hk,Nat.le_succ _⟩,.inl rfl⟩
  | signalled fd' hw hp hrep =>
    refine .inr ⟨⟨hr,hl,hk,Nat.le_succ _⟩,?_⟩
    by_cases hfd : fd=fd'
    · exact .inr ⟨hfd ▸ hrep,Nat.succ_pos _⟩
    · exact .inl (Function.update_of_ne hfd _ _)
  | robbed asleep waits ha hw ht hf =>
    exact .inr ⟨⟨hr,hl,hk,le_rfl⟩,.inl (congrFun (hf hρ) fd)⟩

/-- One step of the scheduler. A parked coroutine stays parked until it is resumed, and
without a timer it is resumed only after a write to its counter. -/
theorem Parked.moves (h : Parked table fd c timed s) (hs : Sound s) (hreg : Registered s)
    (hd : Disciplined s a) (hfd : fdUnmapped s a=true) (hc : concerns fd a=false)
    (hrep : Reported table s) (hm : Moves s a t) :
    (t.currThread=some c → timed=false → (eventfdRead table fd).isSome=true) ∧
    (t.currThread≠some c → Parked table fd c timed t) ∧
    ∀ d,t.fdCoMap.lookup fd=some d → d=c := by
  have hab : a≠.schedAbort := by
    rintro rfl
    cases hc
  have hsole : ∀ d,t.fdCoMap.lookup fd=some d → d=c := by
    intro d hd
    rcases (shrinks_of_moves hm hc).entry with hkept|⟨-,hnone⟩
    · exact h.sole d (hkept ▸ hd)
    · simp [hnone] at hd
  have hsettled := hs.settled c
  have hheld : (standing s c).waits fd=true ∨ 0<(standing s c).queued :=
    h.held.imp (fun hw => by simpa [standing] using hw) fun hq => List.count_pos_iff.mpr hq.1
  have hop := (hs.stepped False True False hd.1 hd.2 False.elim (fun _ => ⟨hfd,hreg⟩) False.elim
    hab hm).hops c
  rcases hop_of_wait trivial h.live (by simpa [standing] using h.suspended) h.cont hheld hop with
    ⟨hrun,hq⟩|⟨⟨hrun,hlive,hcont,hle⟩,hcase⟩
  · refine ⟨fun _ ht => ?_,fun hne => absurd (by simpa [standing] using hrun) hne,hsole⟩
    rcases h.held with hw|hq'
    · have hw' : (standing s c).waits fd=true := by simpa [standing] using hw
      rw [(hsettled.woken hq fd timed h.cont hw').1] at ht
      cases ht
    · exact hq'.2 ht
  · have hne : t.currThread≠some c := by simpa [standing] using hrun
    refine ⟨fun hr => absurd hr hne,fun _ => ⟨h.counter,hcont,hlive,hne,hsole,?_⟩,hsole⟩
    have hmem : 0<(standing t c).queued → c∈t.urgentReady++t.ready := List.count_pos_iff.mp
    rcases hcase with hsame|⟨⟨rest,hp⟩,hq⟩
    · rcases h.held with hw|⟨hq,hread⟩
      · have hw' : (standing t c).waits fd=true := by
          rw [hsame]
          simpa [standing] using hw
        exact .inl (by simpa [standing] using hw')
      · exact .inr ⟨hmem ((List.count_pos_iff.mpr hq).trans_le hle),hread⟩
    · obtain ⟨n,hn⟩ := h.counter
      have hzero : n≠0 := by
        rintro rfl
        exact hrep _ hp fd List.mem_cons_self hn
      exact .inr ⟨hmem hq,fun _ => by simp [eventfdRead,hn,hzero]⟩

section Wait

variable {timeout : ℤ} {now : ℕ} {depth : ℕ×ℕ}

/-- A wait registers the running coroutine, which then suspends without an overflow. -/
theorem wait_suspends (hs : Sound s) (hr : Running s c)
    (hkill : killsCleanly s (.wait fd timeout now depth)=true)
    (h : waitev s c fd timeout now depth=.ok t) :
    ∃ u,tables u=(s.openFds,fd::s.epollSet,s.fdCoMap.insert fd c) ∧ u.currThread=some c ∧
      checkstk u c depth.1=false ∧ (standing u c).doomed=false ∧ (u.co c).life=.live ∧
      backToLoop (yield u c depth (.wait fd (0<timeout))) c=.ok t := by
  obtain ⟨-,hq,hl,-,-,hd⟩ := hs.running hr
  have hc : c∉s.sleeping := by simpa [standing] using hq.asleep
  have hcs : checkstk s c depth.1=false := by simpa [killsCleanly,hr.2] using hkill
  obtain ⟨u,hu,h⟩ := bind_eq_ok h
  obtain ⟨hfu,hstu⟩ := schedWait_spec hu
  have hsl : u.sleeping=s.sleeping := (schedWait_sleeping hu).1
  obtain ⟨-,hst⟩ := schedSleep_spec (hfu.ordered hs.ordered) (hsl ▸ hc) timeout now
  have hself : (standing (scheduleSchedSleep u c timeout now) c).doomed=false ∧
      (standing (scheduleSchedSleep u c timeout now) c).life=.live := by
    rw [hst,if_pos rfl]
    split_ifs <;> simp [hstu,standing_setClock,hd] <;> exact hl
  have hcu := currThread_eq (control_schedWait hu)
  have hcur : (scheduleSchedSleep u c timeout now).currThread=s.currThread :=
    (currThread_eq (control_schedSleep _ _)).trans hcu
  refine ⟨_,(kept_schedSleep u c timeout now).tables.trans ?_,hcur.trans hr.2,
    (checkstk_schedSleep _ _ _).trans ((checkstk_schedWait hu _).trans hcs),hself.1,hself.2,h⟩
  obtain ⟨v,hv,hu⟩ := bind_eq_ok hu
  unfold epollCtlAdd at hv
  split_ifs at hv
  cases hv
  cases hu
  rfl

/-- A wait on a counter that nobody waits for parks the coroutine. -/
theorem parked_of_wait (hs : Sound s) (hr : Running s c)
    (hkill : killsCleanly s (.wait fd timeout now depth)=true)
    (hcounter : ∃ n,table fd=some (.event n)) (h : waitev s c fd timeout now depth=.ok t) :
    Parked table fd c (0<timeout) t := by
  obtain ⟨u,htables,hcur,hcs,hdoom,hlive,h⟩ := wait_suspends hs hr hkill h
  have hwaits : u.fdCoMap.lookup fd=some c := by
    rw [show u.fdCoMap=_ from congrArg (fun p => p.2.2) htables]
    exact AList.lookup_insert _
  have hend := (suspend_spec hcs hdoom hcur h).2 c
  rw [if_pos rfl] at hend
  have hlookup : t.fdCoMap.lookup fd=some c := by
    simpa [standing,hwaits] using congrFun (congrArg Standing.waits hend) fd
  refine ⟨hcounter,congrArg Standing.cont hend,(congrArg Standing.life hend).trans hlive,?_,?_,
    .inl hlookup⟩
  · simpa [standing] using congrArg Standing.running hend
  · intro d hd
    exact (Option.some.inj (hlookup.symm.trans hd)).symm

/-- A wait closes no descriptor, and control goes back to the scheduler. -/
theorem openFds_of_wait (hs : Sound s) (hr : Running s c)
    (hkill : killsCleanly s (.wait fd timeout now depth)=true)
    (h : waitev s c fd timeout now depth=.ok t) : t.openFds=s.openFds ∧ t.currThread=none := by
  obtain ⟨u,htables,hcur,hcs,hdoom,-,h⟩ := wait_suspends hs hr hkill h
  have hself : (standing (yield u c depth (.wait fd (0<timeout))) c).doomed=false := by
    rw [(yield_spec hcs _).2]
    simpa using hdoom
  rw [backToLoop,resumeReturn_of_not_doomed hself] at h
  cases h
  have hyield := (kept_yield u c depth (.wait fd (0<timeout))).tables.trans htables
  have hleave := tables_leaveCo ((yield u c depth (.wait fd (0<timeout))).setThread none) c
  exact ⟨(congrArg Prod.fst hleave).trans (congrArg Prod.fst hyield),(control_leaveCo _ _).2⟩

end Wait

/-- Events come into hand by a poll, and otherwise some of those in hand are left. -/
theorem events_of_moves {fds : List ℤ} (h : Moves s a t) (ht : t.pc=.events fds) :
    a=.poll fds ∨ ∃ l,s.pc=.events l ∧ ∀ x∈fds,x∈l := by
  cases flow_of_moves h with
  | stays hf => exact .inr ⟨fds,(pc_eq hf).symm.trans ht,fun _ => id⟩
  | admits hp => exact .inr ⟨fds,hp.symm.trans ht,fun _ => id⟩
  | starts _ hf => cases (congrArg Prod.fst hf).symm.trans ht
  | refuses _ hf => cases (congrArg Prod.fst hf).symm.trans ht
  | finishes _ _ hf => cases (congrArg Prod.fst hf).symm.trans ht
  | enters _ hf => cases (congrArg Prod.fst hf).symm.trans ht
  | leaves hr hp _ _ hu =>
    obtain ⟨urgent,last,idx,hi⟩ := hr.1
    simp only [hu,leaveCo,hp,hi,endPhase,startPhase] at ht
    split_ifs at ht <;> cases ht
  | proceeds hs =>
    have huser : ¬inUserCode s := by
      cases hpc : s.pc <;> simp [inUserCode,inPhase,hpc] at hs ⊢
    have hrun : ∀ d,¬Running s d := by
      rintro d ⟨⟨urgent,last,idx,hpc⟩,-⟩
      simp [inPhase,hpc] at hs
    cases h with
    | loop =>
      unfold loopHead at ht
      split_ifs at ht
      cases ht
    | expire hp hn h =>
      rcases phaseA_cases h with ⟨-,rfl⟩|⟨d,u,hg,-,rfl⟩
      · cases ht
      · have hpc := pc_eq (control_getExpired hg)
        rw [pc_eq control_insertReady,hpc] at ht
        cases hp.symm.trans ht
    | dispatch hp h =>
      rcases phaseBC_cases h with ⟨-,rfl⟩|⟨d,rest,-,-,h⟩
      · unfold endPhase startPhase at ht
        split_ifs at ht <;> cases ht
      · cases (congrArg Prod.fst (control_enterCo h)).symm.trans ht
    | poll =>
      cases ht
      exact .inl rfl
    | eventsDone => cases ht
    | event hp h =>
      cases (congrArg Prod.fst (control_phaseD h)).symm.trans ht
      exact .inr ⟨_,hp,fun _ => List.mem_cons_of_mem _⟩
    | _ => first | exact absurd ‹_› huser | exact absurd ‹_› (hrun _)

/-- The kernel reports no counter at zero. -/
def reports (table : Table) : Act → Bool
  | .poll fds => fds.all fun fd => table fd≠some (.event 0)
  | _ => true

theorem Reported.moves (h : Reported table s) (ha : reports table a=true) (hm : Moves s a t) :
    Reported table t := by
  intro fds ht fd hfd
  rcases events_of_moves hm ht with rfl|⟨l,hl,hsub⟩
  · simpa using List.all_eq_true.mp ha fd hfd
  · exact h l hl fd (hsub fd hfd)

end DycoCoroutine.NotifyWait
