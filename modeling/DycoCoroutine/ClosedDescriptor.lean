import DycoCoroutine.WakeupSources
import DycoCoroutine.DescriptorEntry
import DycoCoroutine.ReadyQueues

/-!
# A descriptor closed under its waiter

Closing a descriptor takes it out of the interest list, but its waiter stays in
`fd_co_map`. From then on no event can be reported for it and no registration can be
cancelled: `epoll_ctl` fails on a closed descriptor and DYCO_MUST exits. The waiter never
runs again, and `dyco_schedule_run` never finishes.
-/

namespace DycoCoroutine.ClosedDescriptor

open ScheduleState ScheduleOps ScheduleRun ScheduleControl RunInvariant
open CoroutineStanding CoroutineHops ScheduleAbort ReadyQueues EpollRegistration DescriptorEntry
open WakeupSources

variable {s t u : Sched} {a : Act} {c d : Co} {fd : ℤ}

/-- The coroutine `c` waits for a descriptor that is not open. -/
structure Closed (fd : ℤ) (c : Co) (s : Sched) : Prop where
  closed : fd∉s.openFds
  mapped : s.fdCoMap.lookup fd=some c

/-- The step neither hands out this descriptor nor aborts the scheduler. -/
def spares (fd : ℤ) : Act → Bool
  | .openFd e => e≠fd
  | .epollInit e => e≠fd
  | .signalInit e => e≠fd
  | .schedAbort => false
  | _ => true

/-- As long as nobody opens the descriptor, the entry of its waiter stays. -/
theorem Closed.moves (h : Closed fd c s) (hm : Moves s a t) (hspares : spares fd a=true) :
    Closed fd c t := by
  have hconcerns : concerns fd a=false := by
    cases a with
    | openFd e => simpa [concerns,spares] using hspares
    | epollInit e => simpa [concerns,spares] using hspares
    | signalInit e => simpa [concerns,spares] using hspares
    | schedAbort => cases hspares
    | wait e timeout now depth =>
      -- `epoll_ctl` refuses a closed descriptor
      refine decide_eq_false fun he => h.closed ?_
      cases hm with
      | wait hr hn hto hw =>
        obtain ⟨u,hu,-⟩ := bind_eq_ok hw
        obtain ⟨v,hv,-⟩ := bind_eq_ok hu
        unfold epollCtlAdd at hv
        split_ifs at hv with hopen
        exact he ▸ hopen.1
    | _ => rfl
  have hshrinks := shrinks_of_moves hm hconcerns
  refine ⟨fun ho => h.closed (hshrinks.opened ho),?_⟩
  rcases hshrinks.entry with hkept|⟨ho,-⟩
  · rw [hkept]
    exact h.mapped
  · exact absurd ho h.closed

/-! ## The waiter -/

/-- A coroutine that is registered and not running keeps what it waits for. -/
theorem cont_of_hop {ρ : Known} {σ τ : Standing} (hσ : Settled σ)
    (hw : σ.waits fd=true) (h : Hop ρ σ τ) : τ.cont=σ.cont := by
  obtain ⟨hl,hr,-⟩ := hσ.waits fd hw
  cases h with
  | born hu => simp [hl] at hu
  | shelved hu => simp [hl] at hu
  | obtained hi => simp [hl] at hi
  | requeued k hrun => simp [hr] at hrun
  | slept hrun => simp [hr] at hrun
  | overslept hrun => simp [hr] at hrun
  | blocked fd timed hrun => simp [hr] at hrun
  | released life doomed k hlive hq => simp [hq.waits fd] at hw
  | _ => rfl

/-- The scheduler goes on, `c` waits for a closed descriptor, and a finished scheduler has
nothing left to do. -/
structure Stranded (fd : ℤ) (c : Co) (k : Cont) (s : Sched) : Prop where
  sound : Sound s
  closed : Closed fd c s
  cont : (s.co c).cont=k
  finished : s.status=.done → isDone s=true

variable {k : Cont}

theorem Stranded.settled (h : Stranded fd c k s) : (s.co c).life=.live ∧ s.currThread≠some c ∧
    (s.co c).flagsWaiting=true ∧ ∃ timed,(s.co c).cont=.wait fd timed := by
  have hw : (standing s c).waits fd=true := by simpa [standing] using h.closed.mapped
  obtain ⟨hl,hr,hb,hk⟩ := (h.sound.settled c).waits fd hw
  exact ⟨hl,by simpa [standing] using hr,hb,hk⟩

theorem ne_schedAbort (h : spares fd a=true) : a≠.schedAbort := by
  rintro rfl
  cases h

theorem Stranded.moves (h : Stranded fd c k s) (hd : Disciplined s a)
    (hspares : spares fd a=true) (hm : Moves s a t) : Stranded fd c k t where
  sound := h.sound.moves hd.1 hd.2 (ne_schedAbort hspares) hm
  closed := h.closed.moves hm hspares
  cont := by
    have hw : (standing s c).waits fd=true := by simpa [standing] using h.closed.mapped
    have hops := (h.sound.stepped False False False hd.1 hd.2 False.elim False.elim False.elim
      (ne_schedAbort hspares) hm).hops c
    exact (cont_of_hop (h.sound.settled c) hw hops).trans h.cont
  finished := finished_of_moves h.sound.control h.finished hm

theorem Stranded.unfinished (h : Stranded fd c k s) : isDone s=false := by
  have hne : s.fdCoMap.entries≠[] := by
    intro hempty
    have hmem := AList.mem_lookup_iff.mp (Option.mem_def.mpr h.closed.mapped)
    simp [hempty] at hmem
  simp [isDone,hne]

/-- `dyco_schedule_run` does not report that everything is done. -/
theorem Stranded.not_returns (h : Stranded fd c k s) : ¬returnsFromRun s a t 0 := by
  rintro ⟨hstep,hpc,ha⟩
  have hdone := h.unfinished
  have hm := moves_of_step hstep
  by_cases hin : ∀ r,s.pc≠.main r
  · by_cases hl : s.pc=.loop
    · cases hm with
      | loop hp => simp [loopHead,hdone] at hpc
      | _ => simp_all [inUserCode,Running]
    · exact absurd hpc (unfinished_of_moves h.sound.control hin hl hm).2
  · obtain rfl := ha.resolve_right hin
    cases hm with
    | run hu hr =>
      unfold dycoScheduleRun at hr
      split at hr
      · cases hr
      · cases hr
        cases hpc
      · rename_i hst
        simp [h.finished hst] at hdone
      · cases hr
        cases hpc

/-- A round of phase B or C that comes to the waiter does not survive. -/
theorem Stranded.dispatch (h : Stranded fd c k s) {urgent : Bool} {last : Option Co} {idx : ℕ}
    {rest : List Co} (hp : s.pc=.queue urgent last idx)
    (hq : (if urgent then s.urgentReady else s.ready)=c::rest) :
    ∃ f,step s .dispatch=some (.error f) := by
  obtain ⟨hl,-,hw,timed,hk⟩ := h.settled
  have hstep : step s .dispatch=some (phaseBC s urgent last idx) := by simp only [step,hp]
  cases hr : phaseBC s urgent last idx with
  | error f => exact ⟨f,by rw [hstep,hr]⟩
  | ok t =>
    rcases phaseBC_cases hr with ⟨hnil,-⟩|⟨d,rest',hcons,-,he⟩
    · rw [hq] at hnil
      cases hnil
    · rw [hq] at hcons
      cases hcons
      obtain ⟨hkept,hcont⟩ := kept_popQueue s urgent c rest
      have hopen := (shrinks_enterCo he).2 timed (hcont.trans hk) ((hkept.waiting c).trans hw)
      have htables := hkept.tables
      simp only [tables,Prod.mk.injEq] at htables
      exact absurd (htables.1 ▸ hopen) h.closed.closed

theorem stranded_of_reachable (h : Reachable Disciplined s) (hst : s.status≠.aborted)
    (hc : Closed fd c s) : Stranded fd c (s.co c).cont s where
  sound := by
    rcases tidy_of_reachable h with ⟨hs,-⟩|⟨ha,-⟩
    · exact hs
    · exact absurd ha hst
  closed := hc
  cont := rfl
  finished := by
    obtain ⟨schedId,stackSize,pageSize,now,h⟩ := h
    refine (h.invariant (fun r => Control r ∧ (r.status=.done → isDone r=true)) ⟨?_,?_⟩
      fun r b v hr _ hv => ⟨hr.1.moves (moves_of_step hv),
        finished_of_moves hr.1 hr.2 (moves_of_step hv)⟩).2
    · exact (sound_create schedId stackSize pageSize now).control
    · intro hd
      cases hd

/-- A descriptor has been closed while `c` is registered for it. In every run from there, as
long as the descriptor is not handed out again and the scheduler not aborted, `c` stays
registered and never runs again, `dyco_schedule_run` does not return 0, and a round of phase
B or C that comes to `c` ends the process. A wait without a timer is never even queued. -/
theorem closed_descriptor_strands_waiter (h : Reachable Disciplined s) (hst : s.status≠.aborted)
    (ho : fd∉s.openFds) (hl : s.fdCoMap.lookup fd=some c)
    (hrun : Runs step (fun r a => Disciplined r a ∧ spares fd a=true) s t) :
    (t.fdCoMap.lookup fd=some c ∧ (t.co c).life=.live ∧ t.currThread≠some c) ∧
    (∀ a u,¬returnsFromRun t a u 0) ∧
    (∀ urgent last idx rest,t.pc=.queue urgent last idx →
      (if urgent then t.urgentReady else t.ready)=c::rest →
        ∃ f,step t .dispatch=some (.error f)) ∧
    ((s.co c).cont=.wait fd false → c∉t.urgentReady++t.ready ∧ c∉t.sleeping) := by
  have hstranded : Stranded fd c (s.co c).cont t :=
    hrun.invariant (Stranded fd c (s.co c).cont) (stranded_of_reachable h hst ⟨ho,hl⟩)
      fun _ _ _ hi hb hv => hi.moves hb.1 hb.2 (moves_of_step hv)
  obtain ⟨hlive,hrunning,-,-⟩ := hstranded.settled
  refine ⟨⟨hstranded.closed.mapped,hlive,hrunning⟩,fun a u => hstranded.not_returns,
    fun urgent last idx rest hp hq => hstranded.dispatch hp hq,fun hk => ?_⟩
  have hcont : (standing t c).cont=.wait fd false := hstranded.cont.trans hk
  have hw : (standing t c).waits fd=true := by simpa [standing] using hstranded.closed.mapped
  have hsettled := hstranded.sound.settled c
  constructor
  · intro hmem
    cases (hsettled.woken (List.count_pos_iff.mpr hmem) fd false hcont hw).1
  · intro hmem
    cases (hsettled.asleep (by simpa [standing] using hmem)).2.2.2 fd false hcont

/-- The first coroutine waits for descriptor 5 without a timer, and the second closes it. -/
def closedUnder : List Act :=
  [.openFd 5,.create false,.create false,.run,.loop,.expire 0,.dispatch,.dispatch,
    .wait 5 (-1) 0 (100,100),.dispatch,.closeFd 5]

/-- The second coroutine ends, and the loop goes round. -/
def idleRounds : List Act :=
  [.exit (100,100),.poll [],.event,.loop,.expire 1,.dispatch,.dispatch,.poll [],.event]

theorem closed_descriptor_strands_waiter_closedUnder : ∃ s t,Reachable Disciplined s ∧
    5∉s.openFds ∧ s.fdCoMap.lookup 5=some 0 ∧
    Runs step (fun r a => Disciplined r a ∧ spares 5 a=true) s t ∧ t.pc=.loop ∧
    t.fdCoMap.lookup 5=some 0 ∧ (∀ a u,¬returnsFromRun t a u 0) ∧ 0∉t.urgentReady++t.ready := by
  have h : ((replayWhile step Disciplined (dycoScheduleCreate 1 0 4096 0) closedUnder).bind fun s =>
      (replayWhile step (fun r a => Disciplined r a ∧ spares 5 a=true) s idleRounds).map fun t =>
        ((s.status,s.openFds,s.fdCoMap.lookup 5,(s.co 0).cont),t.pc))=
      some ((.running,[],some 0,.wait 5 false),.loop) := by
    decide +kernel
  obtain ⟨s,hs,h⟩ := Option.bind_eq_some_iff.mp h
  obtain ⟨t,ht,hq⟩ := Option.map_eq_some_iff.mp h
  simp only [Prod.mk.injEq] at hq
  obtain ⟨⟨hst,ho,hl,hk⟩,hp⟩ := hq
  have hreach : Reachable Disciplined s := ⟨1,0,4096,0,runs_of_replayWhile hs⟩
  have hclosed : 5∉s.openFds := by simp [ho]
  obtain ⟨hkept,hreturns,-,huntimed⟩ := closed_descriptor_strands_waiter hreach (by simp [hst])
    hclosed hl (runs_of_replayWhile ht)
  exact ⟨s,t,hreach,hclosed,hl,runs_of_replayWhile ht,hp,hkept.1,hreturns,(huntimed hk).1⟩

end DycoCoroutine.ClosedDescriptor
