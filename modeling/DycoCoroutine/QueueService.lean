import DycoCoroutine.QueueOrder

/-!
# Bounded service of the ready queues

A phase of `dyco_schedule_run` remembers the last coroutine of its queue, and ends
when it has resumed that one or 128 coroutines. So it serves the first coroutines of
the queue as it stood when the phase began, whatever they append meanwhile, and each
coroutine of a queue is resumed within a number of iterations that depends on its
position alone.
-/

namespace DycoCoroutine.QueueService

open ScheduleState ScheduleOps ScheduleRun ScheduleControl QueueOrder RunInvariant

variable {urgent : Bool} {q : List Co} {k p : ℕ} {s t u : Sched} {a : Act} {c d : Co}
  {cond : Sched → Act → Prop} {safe : Co → Prop} {log : List Co} {ended : ℕ}

/-- Where a phase stands that began with the queue `q` and has taken `k` coroutines
from it. -/
inductive Stage (urgent : Bool) (q : List Co) (k : ℕ) (t : Sched) : Prop
  /-- The next coroutine is to be taken. -/
  | between (hp : t.pc=.queue urgent q.getLast? k) (hk : k < maxExec)
      (hq : k<q.length ∨ k=0 ∧ q=[] ∧ queue urgent t=[])
  /-- The last one that was taken is running. -/
  | inside {c : Co} (hp : t.pc=.inCo urgent q.getLast? (k-1)) (hc : t.currThread=some c)
      (h0 : 0<k) (hk : k ≤ maxExec) (hq : q[k-1]?=some c)
  /-- The phase has ended. -/
  | finished (hp : serving urgent t.pc=false) (hk : k=min q.length maxExec)

/-- A phase that began with the queue `q` has taken its first `k` coroutines, and
has freed none of the others among the `safe` ones. -/
structure Progress (urgent : Bool) (q : List Co) (safe : Co → Prop) (k : ℕ) (t : Sched) : Prop where
  rest : q.drop k<+:queue urgent t
  alive : ∀ d∈q.drop k,safe d → (t.co d).life≠.freed
  stage : Stage urgent q k t

/-- A round of a phase is the only step that is possible between coroutines. -/
theorem eq_dispatch {last : Option Co} {idx : ℕ} (h : Moves s a t)
    (hp : s.pc=.queue urgent last idx) : a=.dispatch := by
  have hloop : ofLoop a=true := (ofLoop_eq h).trans (by rw [hp]; rfl)
  cases h with
  | dispatch => rfl
  | loop hp' => cases hp.symm.trans hp'
  | expire hp' => cases hp.symm.trans hp'
  | poll hp' => cases hp.symm.trans hp'
  | eventsDone hp' => cases hp.symm.trans hp'
  | event hp' => cases hp.symm.trans hp'
  | _ => cases hloop

/-- The coroutine `c` gives up control and the scheduler goes on. -/
def Leaves (s t : Sched) (c : Co) : Prop :=
  ∃ v,v.pc=s.pc ∧ v.status=.running ∧ (∀ urgent,queue urgent t=queue urgent v) ∧ t=leaveCo v c

theorem leaves_of_backToLoop (hc : controlPoint u=controlPoint s) (hst : s.status=.running)
    (h : backToLoop u c=.ok t) : Leaves s t c := by
  obtain ⟨v,hv,rfl⟩ := backToLoop_control h
  simp only [controlPoint,Prod.mk.injEq] at hv
  refine ⟨v,hv.1.trans (pc_eq hc),(hv.2.1.trans (status_eq hc)).trans hst,fun urgent => ?_,rfl⟩
  obtain ⟨pc,hpc⟩ := leaveCo_eq v c
  rw [hpc]
  rfl

/-- An undisturbed coroutine goes on running, or gives up control to the loop. -/
theorem leaves_of_moves (h : Moves s a t) (hr : Running s c) (hst : s.status=.running)
    (hq : undisturbed s a=true) : t.pc=s.pc ∧ t.currThread=some c ∨ Leaves s t c := by
  have hstays : controlPoint t=controlPoint s → t.pc=s.pc ∧ t.currThread=some c :=
    fun hc => ⟨pc_eq hc,(currThread_eq hc).trans hr.2⟩
  have hrun : ∀ {d},Running s d → d=c := fun hd => Option.some.inj (hd.2.symm.trans hr.2)
  obtain ⟨urgent,last,idx,hp⟩ := hr.1
  cases h with
  | create hu h =>
    obtain ⟨hpc,hcu,-⟩ := control_enroll h
    exact .inl ⟨hpc,hcu.trans hr.2⟩
  | poolCreate => exact .inl (hstays (control_cpCreate _ _ _))
  | obtain hu h =>
    rcases cpObtain_cases h with rfl|⟨cp,d,rest,-,-,-,h⟩
    · exact .inl (hstays rfl)
    · obtain ⟨hpc,hcu,-⟩ := control_enroll h
      exact .inl ⟨hpc,hcu.trans hr.2⟩
  | setUrgent hu h => rcases setUrgent_cases h with rfl|⟨d,rfl⟩ <;> exact .inl (hstays rfl)
  | openFd => exact .inl (hstays rfl)
  | closeFd => exact .inl (hstays rfl)
  | run hu h => simp [dycoScheduleRun,hst] at h
  | loop h => simp [hp] at h
  | expire h => simp [hp] at h
  | dispatch h => simp [hp] at h
  | poll h => simp [hp] at h
  | eventsDone h => simp [hp] at h
  | event h => simp [hp] at h
  | sleep hd hn h =>
    cases hrun hd
    refine .inr (leaves_of_backToLoop ?_ hst h)
    rw [control_yield]
    split_ifs
    · exact control_insertReady
    · exact control_schedSleep _ _
  | wait hd hn ht h =>
    cases hrun hd
    obtain ⟨v,hv,h⟩ := bind_eq_ok h
    refine .inr (leaves_of_backToLoop ?_ hst h)
    rw [control_yield,control_schedSleep]
    exact (control_schedWait hv).trans rfl
  | exit hd h =>
    cases hrun hd
    refine .inr (leaves_of_backToLoop ?_ hst h)
    rw [control_yield]
    rfl
  | abort => cases hq
  | checkStack hd h =>
    cases hrun hd
    obtain ⟨-,hc⟩ := (survives_iff hr).mp hq
    rw [hc] at h
    cases h
    exact .inl (hstays rfl)
  | stop => cases hq
  | schedAbort => cases hq
  | epollInit hd hf =>
    unfold dycoEpollInit at hstays ⊢
    split_ifs <;> exact .inl ⟨rfl,hr.2⟩
  | epollDestroy hd =>
    unfold dycoEpollDestroy
    split_ifs <;> exact .inl ⟨rfl,hr.2⟩
  | signalInit hd hf =>
    unfold dycoSignalInit
    split_ifs <;> exact .inl ⟨rfl,hr.2⟩
  | signalDestroy hd =>
    unfold dycoSignalDestroy
    split_ifs <;> exact .inl ⟨rfl,hr.2⟩

theorem serving_endPhase (s : Sched) (urgent : Bool) :
    serving urgent (endPhase s urgent).pc=false := by
  cases urgent <;> rfl

/-- The last element of a list without duplicates has the last position. -/
theorem eq_length_of_getLast? (hn : q.Nodup) (h0 : 0<k) (hc : q[k-1]?=some c) :
    q.getLast?=some c ↔ k=q.length := by
  obtain ⟨hlt,hget⟩ := List.getElem?_eq_some_iff.mp hc
  rw [List.getLast?_eq_getElem?]
  constructor
  · intro hl
    obtain ⟨hlt',hget'⟩ := List.getElem?_eq_some_iff.mp hl
    have hidx := hn.getElem_inj_iff.mp (hget.trans hget'.symm)
    omega
  · rintro rfl
    exact hc

/-- A coroutine that was taken is not among the others. -/
theorem not_mem_drop (hn : q.Nodup) (h0 : 0<k) (hc : q[k-1]?=some c) : c∉q.drop k := by
  intro hm
  obtain ⟨hlt,hget⟩ := List.getElem?_eq_some_iff.mp hc
  obtain ⟨i,hi,hget'⟩ := List.mem_iff_getElem.mp hm
  rw [List.getElem_drop] at hget'
  have hidx := hn.getElem_inj_iff.mp (hget.trans hget'.symm)
  omega

/-- A round of the phase takes the next coroutine of the queue, or the queue is
empty. -/
theorem Progress.dispatch (h : Progress urgent q safe k t) (hp : t.pc=.queue urgent q.getLast? k)
    (hk : k < maxExec) (hlen : k<q.length ∨ k=0 ∧ q=[] ∧ queue urgent t=[])
    (hm : Moves t .dispatch u) :
    Progress urgent q safe (k+(taken urgent t .dispatch).toList.length) u ∧
      (taken urgent t .dispatch=none ∨ taken urgent t .dispatch=q[k]?) := by
  obtain ⟨urgent',last,idx,hp',hcases⟩ := dispatch_cases hm
  cases hp.symm.trans hp'
  rcases hcases with ⟨hempty,rfl⟩|⟨c,rest,hd⟩
  · have hnone : taken urgent t .dispatch=none := by simp [taken,hp,hempty]
    have hk0 : k=0 ∧ q=[] := by
      rcases hlen with hlt|⟨h0,hq0,-⟩
      · have hrest := h.rest
        rw [hempty,List.prefix_nil,List.drop_eq_nil_iff] at hrest
        omega
      · exact ⟨h0,hq0⟩
    obtain ⟨rfl,rfl⟩ := hk0
    rw [hnone]
    exact ⟨⟨List.nil_prefix,fun d hd => absurd hd List.not_mem_nil,
      .finished (serving_endPhase t urgent) rfl⟩,.inl rfl⟩
  · have hlt : k<q.length := by
      rcases hlen with hlt|⟨-,-,hempty⟩
      · exact hlt
      · rw [hd.front] at hempty
        cases hempty
    have hrest := h.rest
    rw [hd.front,List.drop_eq_getElem_cons hlt,List.cons_prefix_cons] at hrest
    obtain ⟨hhead,hrest⟩ := hrest
    have hget : q[k]?=some c := by rw [List.getElem?_eq_getElem hlt,hhead]
    have htaken : taken urgent t .dispatch=some c := by simp [taken,hp,hd.front]
    have hcontrol := hd.control
    simp only [controlPoint,Prod.mk.injEq] at hcontrol
    rw [htaken]
    refine ⟨⟨hrest.trans hd.rest,fun e he hsafe hf => ?_,
      .inside hcontrol.1 hcontrol.2.2 (Nat.succ_pos k) hk hget⟩,.inr hget.symm⟩
    have he' : e∈q.drop k := by
      rw [List.drop_eq_getElem_cons hlt]
      exact List.mem_cons_of_mem _ he
    exact h.alive e he' hsafe (hd.lives e hf)

/-- The coroutine at position `k-1` goes on running, or gives up control and the phase
ends or goes on behind it. -/
theorem stage_of_running (hn : q.Nodup) (hp : t.pc=.inCo urgent q.getLast? (k-1))
    (hcu : t.currThread=some c) (h0 : 0<k) (hk : k ≤ maxExec) (hget : q[k-1]?=some c)
    (hst : t.status=.running) (hq : undisturbed t a=true) (hm : Moves t a u) :
    Stage urgent q k u := by
  have hr : Running t c := ⟨⟨urgent,_,_,hp⟩,hcu⟩
  obtain ⟨hklen,-⟩ := List.getElem?_eq_some_iff.mp hget
  rcases leaves_of_moves hm hr hst hq with ⟨hpc,hcu'⟩|⟨v,hpc,hvs,hvq,rfl⟩
  · exact .inside (hpc.trans hp) hcu' h0 hk hget
  · have hlast := eq_length_of_getLast? hn h0 hget
    simp only [leaveCo,hpc,hp,hvs]
    rw [if_neg (by decide),if_neg (by decide)]
    split_ifs with hl hmax
    · have hkn := hlast.mp hl
      exact .finished (serving_endPhase v urgent) (by omega)
    · exact .finished (serving_endPhase v urgent) (by omega)
    · refine .between ?_ (by omega) (.inl ?_)
      · show Pc.queue urgent q.getLast? (k-1+1)=_
        rw [Nat.sub_add_cancel h0]
      · have hkn : k≠q.length := fun he => hl (hlast.mpr he)
        omega

/-- One step of a phase that began without duplicates. -/
theorem Progress.step (h : Progress urgent q safe k t) (hn : q.Nodup) (hc : Control t)
    (hs : serving urgent t.pc=true) (hq : undisturbed t a=true) (ha : step t a=some (.ok u)) :
    Progress urgent q safe (k+(taken urgent t a).toList.length) u ∧
      (taken urgent t a=none ∨ taken urgent t a=q[k]?) := by
  have hm : Moves t a u := moves_of_step ha
  cases h.stage with
  | between hp hk hlen =>
    cases eq_dispatch hm hp
    exact h.dispatch hp hk hlen hm
  | @inside c hp hcu h0 hk hget =>
    have hne : a≠.dispatch := by
      rintro rfl
      obtain ⟨urgent',last,idx,hp',-⟩ := dispatch_cases hm
      cases hp.symm.trans hp'
    have hnone : taken urgent t a=none := by
      unfold taken
      split
      · exact absurd rfl hne
      · rfl
    have hrest : q.drop k<+:queue urgent u :=
      h.rest.trans ((keeps_of_moves hm hne).queues urgent)
    have hst : t.status=.running := hc.status_of_running ⟨⟨urgent,_,_,hp⟩,hcu⟩
    rw [hnone]
    refine ⟨⟨hrest,fun e he hsafe hf => ?_,stage_of_running hn hp hcu h0 hk hget hst hq hm⟩,
      .inl rfl⟩
    have hec : ¬endangered t a e := fun hd => by
      cases hcu.symm.trans (hd hq)
      exact not_mem_drop hn h0 hget he
    exact h.alive e he hsafe ((keeps_of_moves hm hne).lives e hec hf)
  | finished hp hk =>
    rw [hp] at hs
    cases hs

/-- A phase begins. -/
theorem progress_start (hp : s.pc=.queue urgent (queue urgent s).getLast? 0)
    (hsafe : ∀ d,safe d → (s.co d).life≠.freed) :
    Progress urgent (queue urgent s) safe 0 s := by
  refine ⟨List.prefix_rfl,fun d _ hd => hsafe d hd,.between hp (by decide) ?_⟩
  cases hq : queue urgent s with
  | nil => exact .inr ⟨rfl,rfl,rfl⟩
  | cons c rest => exact .inl (Nat.succ_pos _)

/-- The end of a phase begins the other one, or none. -/
theorem begins_of_endPhase {urgent' : Bool} (ht : serving urgent (endPhase s urgent').pc=true) :
    (endPhase s urgent').pc=.queue urgent (queue urgent (endPhase s urgent')).getLast? 0 := by
  cases urgent' with
  | false => cases ht
  | true =>
    cases urgent with
    | false => rfl
    | true => cases ht

/-- The return of a coroutine of another phase. -/
theorem begins_of_leaves {urgent' : Bool} {last : Option Co} {idx : ℕ}
    (hp : s.pc=.inCo urgent' last idx) (hs : serving urgent s.pc=false) (hl : Leaves s t c)
    (ht : serving urgent t.pc=true) : t.pc=.queue urgent (queue urgent t).getLast? 0 := by
  obtain ⟨v,hpc,hvs,-,rfl⟩ := hl
  have hne : urgent'≠urgent := by simpa [serving,hp] using hs
  simp only [leaveCo,hpc,hp,hvs] at ht ⊢
  rw [if_neg (by decide),if_neg (by decide)] at ht ⊢
  split_ifs at ht ⊢
  · exact begins_of_endPhase ht
  · exact begins_of_endPhase ht
  · simp [serving,hne] at ht

/-- A phase begins with its whole queue before it. -/
theorem begins_of_moves (h : Moves s a t) (hc : Control s) (hq : undisturbed s a=true)
    (hs : serving urgent s.pc=false) (ht : serving urgent t.pc=true) :
    t.pc=.queue urgent (queue urgent t).getLast? 0 := by
  have hmoved : t.pc≠s.pc := fun he => by
    rw [he,hs] at ht
    cases ht
  have hrun : ∀ {d},Running s d → t.pc=.queue urgent (queue urgent t).getLast? 0 := by
    intro d hr
    obtain ⟨urgent',last,idx,hp⟩ := hr.1
    rcases leaves_of_moves h hr (hc.status_of_running hr) hq with ⟨he,-⟩|hl
    · exact absurd he hmoved
    · exact begins_of_leaves hp hs hl ht
  cases h with
  | create hu h => exact absurd (control_enroll h).1 hmoved
  | poolCreate => exact absurd (pc_eq (control_cpCreate _ _ _)) hmoved
  | obtain hu h =>
    rcases cpObtain_cases h with rfl|⟨cp,d,rest,-,-,-,h⟩
    · exact absurd rfl hmoved
    · exact absurd (control_enroll h).1 hmoved
  | setUrgent hu h => rcases setUrgent_cases h with rfl|⟨d,rfl⟩ <;> exact absurd rfl hmoved
  | openFd => exact absurd rfl hmoved
  | closeFd => exact absurd rfl hmoved
  | run hu h =>
    unfold dycoScheduleRun at h
    split at h <;> cases h <;> cases ht
  | loop hp =>
    unfold loopHead at ht
    split_ifs at ht <;> cases ht
  | expire hp hn h =>
    rcases phaseA_cases h with ⟨-,rfl⟩|⟨c,u,hg,-,rfl⟩
    · cases urgent with
      | false => cases ht
      | true => rfl
    · exact absurd (pc_eq (control_insertReady.trans (control_getExpired hg))) hmoved
  | dispatch hp h =>
    obtain ⟨urgent',last,idx,hp',⟨-,rfl⟩|⟨c,rest,hd⟩⟩ := dispatch_cases (.dispatch hp h)
    · exact begins_of_endPhase ht
    · have hpc := congrArg Prod.fst hd.control
      simp only [controlPoint] at hpc
      rw [hpc] at ht
      rw [hp'] at hs
      exact absurd (hs.symm.trans ht) Bool.false_ne_true
  | poll => cases ht
  | eventsDone => cases ht
  | event hp h =>
    have hpc := congrArg Prod.fst (control_phaseD h)
    simp only [controlPoint] at hpc
    rw [hpc] at ht
    cases ht
  | sleep hr => exact hrun hr
  | wait hr => exact hrun hr
  | exit hr => exact hrun hr
  | abort hr => exact hrun hr
  | checkStack hr => exact hrun hr
  | stop hr => exact hrun hr
  | schedAbort hr => exact hrun hr
  | epollInit hr => exact hrun hr
  | epollDestroy hr => exact hrun hr
  | signalInit hr => exact hrun hr
  | signalDestroy hr => exact hrun hr

/-- The coroutine `c` has not been taken in `ended` phases, and stands so far in
front that it will be taken in the one that position `p` allows for. -/
inductive Waits (urgent : Bool) (c : Co) (p ended : ℕ) (t : Sched) : Prop
  /-- In a phase that began with the queue `q`. -/
  | serving {q : List Co} {k i : ℕ} (hs : serving urgent t.pc=true)
      (hn : q.Nodup ∨ t.pc=.queue urgent q.getLast? 0 ∧ q=queue urgent t)
      (hprog : Progress urgent q (fun _ => False) k t) (hc : q[i]?=some c) (hk : k ≤ i)
      (hi : i+maxExec*ended ≤ p)
  /-- Between two phases. -/
  | between {i : ℕ} (hs : QueueOrder.serving urgent t.pc=false) (hc : (queue urgent t)[i]?=some c)
      (hi : i+maxExec*ended ≤ p)

/-- A queue begins without duplicates. -/
def beginsDistinct (urgent : Bool) (t : Sched) : Prop :=
  ∀ last,t.pc=.queue urgent last 0 → (queue urgent t).Nodup

theorem Waits.bound (h : Waits urgent c p ended t) : maxExec*ended ≤ p := by
  cases h with
  | serving hs hn hprog hc hk hi => omega
  | between hs hc hi => omega

/-- One step: `c` is taken, or the phase that has ended has taken 128 coroutines in
front of it. -/
theorem Waits.step (h : Waits urgent c p ended t) (hc : Control t) (hq : undisturbed t a=true)
    (hd : beginsDistinct urgent t) (ha : step t a=some (.ok u)) :
    taken urgent t a=some c ∨
      Waits urgent c p (ended+(QueueOrder.serving urgent t.pc &&
        !QueueOrder.serving urgent u.pc).toNat) u := by
  have hm : Moves t a u := moves_of_step ha
  cases h with
  | @serving q k i hs hn hprog hget hk hi =>
    have hnodup : q.Nodup := by
      rcases hn with hn|⟨hp,rfl⟩
      · exact hn
      · exact hd _ hp
    obtain ⟨hnext,htaken⟩ := hprog.step hnodup hc hs hq ha
    by_cases hc' : taken urgent t a=some c
    · exact .inl hc'
    have hki : k+(taken urgent t a).toList.length ≤ i := by
      rcases htaken with hnone|hsome
      · simpa [hnone] using hk
      · have hne : k≠i := by
          rintro rfl
          exact hc' (hsome.trans hget)
        have hlen : (taken urgent t a).toList.length ≤ 1 := by
          cases taken urgent t a <;> simp
        omega
    refine .inr ?_
    cases hu : QueueOrder.serving urgent u.pc with
    | true =>
      simp only [hs,Bool.not_true,Bool.and_false,Bool.toNat_false,Nat.add_zero]
      exact .serving hu (.inl hnodup) hnext hget hki hi
    | false =>
      simp only [hs,Bool.not_false,Bool.and_true,Bool.toNat_true]
      have hfin : k+(taken urgent t a).toList.length=min q.length maxExec := by
        cases hnext.stage with
        | between hp => simp [QueueOrder.serving,hp] at hu
        | inside hp => simp [QueueOrder.serving,hp] at hu
        | finished _ hk => exact hk
      obtain ⟨hilt,-⟩ := List.getElem?_eq_some_iff.mp hget
      have hmax : k+(taken urgent t a).toList.length=maxExec := by omega
      refine .between (i := i-maxExec) hu ?_ ?_
      · have hrest := hnext.rest
        rw [hmax] at hrest
        obtain ⟨new,hnew⟩ := hrest
        rw [← hnew,List.getElem?_append_left (by rw [List.length_drop]; omega),List.getElem?_drop,
          Nat.add_sub_cancel' (by omega)]
        exact hget
      · have hmul : maxExec*(ended+1)=maxExec*ended+maxExec := Nat.mul_succ ..
        omega
  | @between i hs hget hi =>
    have hnone : taken urgent t a=none := by
      unfold taken
      split
      next urgent' last idx hp =>
        have hne : urgent'≠urgent := by simpa [QueueOrder.serving,hp] using hs
        exact if_neg hne
      · rfl
    obtain ⟨new,hnew⟩ := fifo_of_moves hm urgent
    rw [hnone,Option.toList_none,List.nil_append] at hnew
    obtain ⟨hilt,-⟩ := List.getElem?_eq_some_iff.mp hget
    have hget' : (queue urgent u)[i]?=some c := by
      rw [hnew,List.getElem?_append_left hilt]
      exact hget
    refine .inr ?_
    simp only [hs,Bool.false_and,Bool.toNat_false,Nat.add_zero]
    cases hu : QueueOrder.serving urgent u.pc with
    | true =>
      have hp := begins_of_moves hm hc hq hs hu
      exact .serving hu (.inr ⟨hp,rfl⟩) (progress_start hp fun _ hf => hf.elim) hget' (Nat.zero_le i) hi
    | false => exact .between hu hget' hi

end DycoCoroutine.QueueService
