import DycoCoroutine.QueueService

/-!
# Stopping the scheduler and running it again

`dyco_schedcall_stop` puts the calling coroutine at the tail of its queue and leaves
`dyco_schedule_run` midway, with the SCHEDCALL bit as the only trace. The next run
starts from the queues alone. What it finds there is what a `dyco_coroutine_sleep` of
zero milliseconds would have left, and the coroutine continues behind its call once
for every stop.
-/

namespace DycoCoroutine.StopRun

open ScheduleState ScheduleOps ScheduleRun ScheduleControl CoroutineHops QueueOrder QueueService
open RunInvariant

variable {s t u w : Sched} {a : Act} {c d : Co} {depth : ℕ} {stops entries : ℕ}

/-- The whole stop: `dyco_schedule_run` returns 1. -/
theorem dycoSchedcallStop_eq (hr : Running s c) (depth : ℕ) : dycoSchedcallStop s c depth=
    {stopSuspend s c depth with status := .stopped,currThread := none,pc := .main (some 1)} := by
  obtain ⟨⟨urgent,last,idx,hp⟩,-⟩ := hr
  have hpc : (stopSuspend s c depth).pc=.inCo urgent last idx :=
    (pc_eq (control_stopSuspend depth)).trans hp
  simp only [dycoSchedcallStop,leaveCo,scheduleStop,hpc,if_true]
  rfl

/-- What `dyco_coroutine_sleep(0)` has done when its coroutine is suspended. -/
def sleepSuspend (s : Sched) (c : Co) (now depth : ℕ) : Sched :=
  (savestk (insertReady (s.setClock now) c) c depth).setCo c fun r =>
    {r with statusRunning := false,cont := .sleep}

/-- The containers and the records after a stop are those after a sleep of zero
milliseconds, but for the mark of the stop. -/
theorem stop_like_sleep (s : Sched) (c : Co) (now depth : ℕ) :
    (stopSuspend s c depth).urgentReady=(sleepSuspend s c now depth).urgentReady ∧
    (stopSuspend s c depth).ready=(sleepSuspend s c now depth).ready ∧
    (stopSuspend s c depth).sleeping=(sleepSuspend s c now depth).sleeping ∧
    (stopSuspend s c depth).fdCoMap=(sleepSuspend s c now depth).fdCoMap ∧
    (∀ d≠c,(stopSuspend s c depth).co d=(sleepSuspend s c now depth).co d) ∧
    (stopSuspend s c depth).co c=
      {(sleepSuspend s c now depth).co c with statusSchedcall := true,cont := .stop} := by
  unfold stopSuspend sleepSuspend savestk insertReady
  split_ifs <;> simp_all

/-- The stop appends `c` to the queue of its urgency. -/
theorem queue_stopSuspend (s : Sched) (c : Co) (depth : ℕ) :
    queue (s.co c).flagsUrgent (stopSuspend s c depth)=
      queue (s.co c).flagsUrgent s++[c] ∧
    queue (!(s.co c).flagsUrgent) (stopSuspend s c depth)=queue (!(s.co c).flagsUrgent) s := by
  cases hu : (s.co c).flagsUrgent <;> cases ho : (s.co c).flagsOwnstack <;>
    simp [stopSuspend,savestk,insertReady,queue,hu,ho]

/-- The mark of the stop. -/
theorem trail_stopSuspend (s : Sched) (c : Co) (depth : ℕ) :
    ((stopSuspend s c depth).co c).cont=.stop ∧
    ((stopSuspend s c depth).co c).statusSchedcall=true := by
  obtain ⟨-,-,-,-,-,hself⟩ := stop_like_sleep s c 0 depth
  rw [hself]
  exact ⟨rfl,rfl⟩

/-- The call of `dyco_schedcall_stop` that `c` makes. -/
def stopsHere (c : Co) (s : Sched) : Act → Bool
  | .stop _ => s.currThread=some c
  | _ => false

/-- The round that continues `c` behind its last call of `dyco_schedcall_stop`. -/
def continues (c : Co) (s : Sched) (a : Act) : Bool :=
  (s.co c).statusSchedcall && (taken true s a=some c || taken false s a=some c)

/-- The scheduler is not aborted, and the record of `c` is not used for another
coroutine. -/
def spares (c : Co) (s : Sched) (a : Act) : Prop := a≠.schedAbort ∧ ¬handedOut s a c

/-- After its first stop `c` has been continued once for every stop, but for the
last if it is still waiting in a queue. -/
structure Marked (c : Co) (stops entries : ℕ) (w : Sched) : Prop where
  created : c<w.nextCo
  count : entries+(w.co c).statusSchedcall.toNat=stops+1
  waits : (w.co c).statusSchedcall=true →
    (w.co c).cont=.stop ∧ w.currThread≠some c ∧ ∃ urgent,c∈queue urgent w

/-- A coroutine that runs has lost its mark. -/
theorem Marked.running (h : Marked c stops entries w) (hc : w.currThread=some c) :
    (w.co c).statusSchedcall=false := by
  cases hb : (w.co c).statusSchedcall with
  | false => rfl
  | true => exact absurd hc (h.waits hb).2.1

/-- A step that leaves the mark of `c` alone and does not make it the current
thread. -/
theorem Marked.frame (h : Marked c stops entries s) (hn : s.nextCo ≤ t.nextCo)
    (ht : trail (t.co c)=trail (s.co c)) (hc : t.currThread=some c → s.currThread=some c)
    (hq : ∀ urgent,c∈queue urgent s → c∈queue urgent t) : Marked c stops entries t := by
  simp only [trail,Prod.mk.injEq] at ht
  refine ⟨h.created.trans_le hn,ht.2.1.symm ▸ h.count,fun hb => ?_⟩
  obtain ⟨hcont,hthread,urgent,hmem⟩ := h.waits (ht.2.1.symm.trans hb)
  exact ⟨ht.1.trans hcont,mt hc hthread,urgent,hq urgent hmem⟩

/-- A step in which `c` runs and keeps its SCHEDCALL bit. -/
theorem Marked.of_running (h : Marked c stops entries s) (hn : s.nextCo ≤ t.nextCo)
    (hc : s.currThread=some c)
    (ht : (t.co c).statusSchedcall=(s.co c).statusSchedcall) : Marked c stops entries t := by
  have hb : (t.co c).statusSchedcall=false := ht.trans (h.running hc)
  exact ⟨h.created.trans_le hn,ht.symm ▸ h.count,fun hb' => by cases hb.symm.trans hb'⟩

/-- `yield` leaves the mark alone. -/
theorem schedcall_yield (depth : ℕ×ℕ) (k : Cont) :
    ((yield s c depth k).co c).statusSchedcall=(s.co c).statusSchedcall := by
  have hkeep : Keeps (fun _ => False) (fun _ => False) s (savestk s c depth.2) :=
    keeps_savestk s c depth.2
  have hsave : ((savestk s c depth.2).co c).statusSchedcall=(s.co c).statusSchedcall :=
    congrArg (fun p => p.2.1) (hkeep.trails c id)
  unfold yield
  split_ifs
  · simp
  · simp
  · simpa using hsave

/-- Giving up control leaves the mark alone. -/
theorem schedcall_backToLoop (h : backToLoop s c=.ok t) :
    (t.co c).statusSchedcall=(s.co c).statusSchedcall := by
  have hkeep : Keeps _ (fun _ => False) s t := keeps_backToLoop h
  exact congrArg (fun p => p.2.1) (hkeep.trails c id)

/-- A call that ends in a `yield` keeps the SCHEDCALL bit. -/
theorem schedcall_suspend {depth : ℕ×ℕ} {k : Cont}
    (hu : Keeps (fun _ => False) (fun _ => False) s u) (h : backToLoop (yield u c depth k) c=.ok t) :
    (t.co c).statusSchedcall=(s.co c).statusSchedcall := by
  have hbefore : (u.co c).statusSchedcall=(s.co c).statusSchedcall :=
    congrArg (fun p => p.2.1) (hu.trails c id)
  exact ((schedcall_backToLoop h).trans (schedcall_yield depth k)).trans hbefore

/-- A kill leaves the mark alone. -/
theorem schedcall_kill (h : coroutineKill s c=.ok t) :
    (t.co c).statusSchedcall=(s.co c).statusSchedcall := by
  refine (schedcall_backToLoop h).trans ?_
  simp

/-- A coroutine that gives up control other than by a call to the scheduler keeps its
SCHEDCALL bit. -/
theorem schedcall_of_givesUp (h : Moves s a t) (hc : s.currThread=some c) (hg : givesUp a=true)
    (hstop : ∀ depth,a≠.stop depth) (habort : a≠.schedAbort) :
    (t.co c).statusSchedcall=(s.co c).statusSchedcall := by
  have hsame : ∀ {d},Running s d → d=c := fun hd => Option.some.inj (hd.2.symm.trans hc)
  cases h with
  | @sleep d msecs now depth _ hr hn h =>
    cases hsame hr
    refine Eq.trans (schedcall_suspend (s := s.setClock now) ?_ h) rfl
    split_ifs
    · exact keeps_insertReady _ c
    · exact keeps_schedSleep _ c _ now
  | @wait d fd timeout now depth _ hr hn ht h =>
    cases hsame hr
    obtain ⟨u,hu,h⟩ := bind_eq_ok h
    refine Eq.trans (schedcall_suspend (s := s.setClock now) ?_ h) rfl
    exact (keeps_schedWait hu).trans (keeps_schedSleep u c timeout now)
  | exit hr h =>
    cases hsame hr
    refine schedcall_suspend ?_ h
    exact keeps_setCo id fun _ => rfl
  | abort hr h =>
    cases hsame hr
    exact schedcall_kill h
  | checkStack hr h =>
    cases hsame hr
    split_ifs at h
    · exact schedcall_kill h
    · cases h
      rfl
  | stop => exact absurd rfl (hstop _)
  | schedAbort => exact absurd rfl habort
  | _ => cases hg

/-- Who is not taken from a queue does not continue. -/
theorem continues_of_not_taken (h : ∀ urgent,taken urgent s a≠some c) : continues c s a=false := by
  simp [continues,h true,h false]

/-- A dispatch takes the head of the queue that is being served. -/
theorem taken_dispatch {urgent urgent' : Bool} {last : Option Co} {idx : ℕ}
    (hp : s.pc=.queue urgent last idx) : taken urgent' s .dispatch=
      if urgent=urgent' then (queue urgent' s).head? else none := by
  simp only [taken,hp]

/-- A round of phase B or C. -/
theorem Marked.dispatch (h : Marked c stops entries s) (hm : Moves s .dispatch t) :
    Marked c stops (entries+(continues c s .dispatch).toNat) t := by
  obtain ⟨urgent,last,idx,hp,⟨hq,rfl⟩|⟨d,rest,hd⟩⟩ := dispatch_cases hm
  · have hnot : continues c s .dispatch=false := by
      refine continues_of_not_taken fun urgent' => ?_
      rw [taken_dispatch hp]
      split_ifs with hu
      · simp [← hu,hq]
      · simp
    rw [hnot]
    have hgoto : ∃ pc,endPhase s urgent=s.goto pc := by
      unfold endPhase startPhase
      split_ifs <;> exact ⟨_,rfl⟩
    obtain ⟨pc,hpc⟩ := hgoto
    rw [hpc]
    exact h.frame le_rfl rfl id fun _ hmem => hmem
  · have hthread : t.currThread=some d := congrArg (fun p => p.2.2) hd.control
    by_cases hdc : d=c
    · subst hdc
      have htaken : continues d s .dispatch=(s.co d).statusSchedcall := by
        have hhead : taken urgent s .dispatch=some d := by
          rw [taken_dispatch hp,if_pos rfl,hd.front]
          rfl
        cases urgent <;> simp [continues,hhead]
      have hbit : (t.co d).statusSchedcall=false := by
        rw [hd.schedcall]
        cases hb : (s.co d).statusSchedcall with
        | false => rfl
        | true => simp [(h.waits hb).1]
      refine ⟨h.created.trans_le hd.objects,?_,fun hb => by cases hbit.symm.trans hb⟩
      have hcount := h.count
      rw [htaken,hbit]
      simpa using hcount
    · have hnot : continues c s .dispatch=false := by
        refine continues_of_not_taken fun urgent' => ?_
        rw [taken_dispatch hp]
        split_ifs with hu
        · simp [← hu,hd.front,hdc]
        · simp
      rw [hnot]
      refine h.frame hd.objects (hd.trails c (Ne.symm hdc)) (fun hc => ?_) fun urgent' hmem => ?_
      · exact absurd (Option.some.inj (hthread.symm.trans hc)) hdc
      · by_cases hu : urgent'=urgent
        · subst hu
          rw [hd.front] at hmem
          exact hd.rest.subset ((List.mem_cons.mp hmem).resolve_left (Ne.symm hdc))
        · obtain rfl : urgent'=!urgent := by
            cases urgent <;> cases urgent' <;> simp_all
          exact hd.other.subset hmem

/-- A stop by `c` or by another coroutine. -/
theorem Marked.stop (h : Marked c stops entries s) (hm : Moves s (.stop depth) t) :
    Marked c (stops+(stopsHere c s (.stop depth)).toNat) entries t := by
  have hkeep := keeps_of_moves hm (by simp)
  cases hm with
  | @stop d _ hr =>
    by_cases hd : d=c
    · subst hd
      rw [dycoSchedcallStop_eq hr depth] at hkeep ⊢
      obtain ⟨hcont,hbit⟩ := trail_stopSuspend s d depth
      refine ⟨h.created.trans_le hkeep.objects,?_,fun _ => ⟨hcont,by simp,(s.co d).flagsUrgent,?_⟩⟩
      · have hcount := h.count
        rw [h.running hr.2] at hcount
        simp only [stopsHere,hr.2,hbit,decide_true,Bool.toNat_true,Bool.toNat_false] at hcount ⊢
        omega
      · have hq := (queue_stopSuspend s d depth).1
        change d∈queue _ (stopSuspend s d depth)
        rw [hq]
        simp
    · have hne : s.currThread≠some c := fun hc => hd (Option.some.inj (hr.2.symm.trans hc))
      have hnot : stopsHere c s (.stop depth)=false := by simp [stopsHere,hne]
      rw [hnot]
      have hfree : ¬touched s (.stop depth) c := by
        rintro (⟨-,hc⟩|hc|⟨p,urgent,cp,ha,-⟩)
        · exact hne hc
        · exact absurd h.created (not_lt.mpr hc)
        · cases ha
      refine h.frame hkeep.objects (hkeep.trails c hfree) (fun hc => ?_)
        fun urgent hmem => (hkeep.queues urgent).subset hmem
      rw [dycoSchedcallStop_eq hr depth] at hc
      cases hc

/-- One step. -/
theorem Marked.step (h : Marked c stops entries s) (hs : spares c s a)
    (ha : step s a=some (.ok t)) :
    Marked c (stops+(stopsHere c s a).toNat) (entries+(continues c s a).toNat) t := by
  have hm : Moves s a t := moves_of_step ha
  by_cases hd : a=.dispatch
  · subst hd
    exact h.dispatch hm
  have hnot : continues c s a=false := by
    refine continues_of_not_taken fun urgent => ?_
    unfold taken
    split
    · exact absurd rfl hd
    · simp
  rw [hnot]
  by_cases hstop : ∃ depth,a=.stop depth
  · obtain ⟨depth,rfl⟩ := hstop
    exact h.stop hm
  have hnone : stopsHere c s a=false := by
    unfold stopsHere
    split
    next depth => exact absurd ⟨depth,rfl⟩ hstop
    · rfl
  rw [hnone]
  have hkeep := keeps_of_moves hm hd
  by_cases hg : givesUp a=true ∧ s.currThread=some c
  · exact h.of_running hkeep.objects hg.2
      (schedcall_of_givesUp hm hg.2 hg.1 (fun depth hd => hstop ⟨depth,hd⟩) hs.1)
  · have hfree : ¬touched s a c := by
      rintro (hc|hc|hc)
      · exact hg hc
      · exact absurd h.created (not_lt.mpr hc)
      · exact hs.2 hc
    refine h.frame hkeep.objects (hkeep.trails c hfree) (fun hc => ?_)
      fun urgent hmem => (hkeep.queues urgent).subset hmem
    rcases currThread_of_moves hm hd with heq|heq
    · exact heq.symm.trans hc
    · cases heq.symm.trans hc

/-- The round that continues `c` enters it behind its call with the bit cleared. -/
theorem Marked.enters (h : Marked c stops entries s) (ha : ScheduleRun.step s a=some (.ok t))
    (hc : continues c s a=true) :
    t.currThread=some c ∧ (t.co c).statusSchedcall=false ∧ (t.co c).cont=.stop := by
  simp only [continues,Bool.and_eq_true,Bool.or_eq_true,decide_eq_true_eq] at hc
  obtain ⟨hbit,htaken⟩ := hc
  have hd : a=.dispatch := by
    by_contra hne
    unfold taken at htaken
    split at htaken
    · exact hne rfl
    · simp at htaken
  subst hd
  obtain ⟨urgent,last,idx,hp,⟨hq,-⟩|⟨d,rest,hd⟩⟩ := dispatch_cases (moves_of_step ha)
  · rw [taken_dispatch hp,taken_dispatch hp] at htaken
    cases urgent <;> simp [hq] at htaken
  · have hdc : d=c := by
      rw [taken_dispatch hp,taken_dispatch hp] at htaken
      have hfront := hd.front
      cases urgent <;> simpa [hfront] using htaken
    subst hdc
    have hcont := (h.waits hbit).1
    refine ⟨congrArg (fun p => p.2.2) hd.control,?_,hd.cont.trans hcont⟩
    rw [hd.schedcall,hcont]
    simp

/-- The first of two coroutines runs. -/
def firstRuns : List Act := [.create false,.create false,.run,.loop,.expire 0,.dispatch,.dispatch]

end DycoCoroutine.StopRun
