import DycoCoroutine.SemaphoreFairness

/-!
# The end of a semaphore

`dyco_semaphore_destroy` writes 64 to the counter of every queued node and frees the
semaphore. If no wait has expired, every blocked wait is answered then, those that were
granted with 0 and the others with -1. A wait that expires has closed its descriptor but
left its node in the queue. From then on, unless the number is handed out again, only the
signals for the nodes before it succeed. The next signal ends the process, and so does
`dyco_semaphore_destroy`.
-/

namespace DycoCoroutine.SemaphoreDestroy

open ScheduleState RunInvariant EventFd Semaphore

/-- A semaphore that is destroyed at some time. -/
structure Session where
  /-- The semaphore, its callers and the descriptors. -/
  world : World
  /-- The semaphore has not been freed. -/
  alive : Bool

/-- `dyco_semaphore_destroy`. The second call finds a null pointer. -/
def dycoSemaphoreDestroy (s : Session) : Except Fault Session :=
  if s.alive then
    match eventfdWriteEach s.world.fds (s.world.sem.wqueue.map Node.notifyfd) 64 with
    | none => .error .must
    | some fds => .ok ⟨{s.world with fds := fds},false⟩
  else .ok s

/-- What can happen next. -/
inductive Act
  /-- A call on the semaphore, the end of one, or a change of the descriptors. -/
  | call (a : Semaphore.Act)
  /-- `dyco_semaphore_destroy` -/
  | destroy

/-- The action reads the semaphore. The rest of a blocked wait does not. -/
def reads : Semaphore.Act → Bool
  | .wait _ _ _ _ _ => true
  | .signal _ => true
  | _ => false

/-- One step. A call through a pointer that was copied before is undefined after the end. -/
def step (s : Session) : Act → Option (Except Fault Session)
  | .call a =>
    if s.alive || !reads a then
      (Semaphore.step s.world a).map fun r => r.map fun w => {s with world := w}
    else some (.error .undefined)
  | .destroy => some (dycoSemaphoreDestroy s)

variable {w t u : World} {s s' : Session} {a : Semaphore.Act} {b : Act} {v : Waiter} {fd : ℤ}
  {value : ℕ}

/-! ## All waits are answered -/

/-- What a wait that is blocked in `w` is answered when the semaphore is destroyed. -/
def verdict (w : World) (v : Waiter) : Reply :=
  .wait v.co (if w.fds v.notifyfd=some (.event 1) then 0 else -1)

/-- The semaphore was destroyed in `w`. What was answered since then and what is still
blocked in `t` make up the waits that were blocked then. -/
structure Closing (w t : World) : Prop where
  distinct : (t.blocked.map Waiter.notifyfd).Nodup
  counters : ∀ v∈t.blocked,t.fds v.notifyfd=
    some (.event (if w.fds v.notifyfd=some (.event 1) then 1 else 64))
  answers : ∃ answers,t.log=w.log++answers ∧
    (answers++t.blocked.map (verdict w)).Perm (w.blocked.map (verdict w))

/-- `dyco_semaphore_destroy` goes through if every queued wait is still blocked. -/
theorem destroy_of_fair (h : SemaphoreFairness.Fair value w) :
    ∃ t,step ⟨w,true⟩ .destroy=some (.ok ⟨t,false⟩) ∧ Closing w t := by
  have htidy := h.balanced.1
  have hwrites : ∃ fds,eventfdWriteEach w.fds (w.sem.wqueue.map Node.notifyfd) 64=some fds := by
    refine exists_eventfdWriteEach htidy.nodes fun x hx => ?_
    obtain ⟨n,hn,rfl⟩ := List.mem_map.mp hx
    exact ⟨0,(htidy.queue n hn).2,by decide⟩
  obtain ⟨fds,hfds⟩ := hwrites
  refine ⟨{w with fds := fds},by simp [step,dycoSemaphoreDestroy,hfds],
    ⟨htidy.distinct,fun v hv => ?_,[],by simp,by simp⟩⟩
  rcases htidy.counters v hv with hzero|hone
  · have hqueued : v.notifyfd∈w.sem.wqueue.map Node.notifyfd := by
      rw [h.order]
      exact mem_silent.mpr ⟨List.mem_map_of_mem hv,hzero⟩
    simpa [hzero] using eventfdWriteEach_of_mem hfds htidy.nodes hqueued hzero
  · have hfree : v.notifyfd∉w.sem.wqueue.map Node.notifyfd := by
      rw [h.order]
      intro hm
      exact absurd (mem_silent.mp hm).2 (by simp [hone])
    simpa [hone] using (eventfdWriteEach_of_not_mem hfds hfree).trans hone

/-- A change of a descriptor that is no counter. -/
theorem Closing.elsewhere {d : Option Desc} (h : Closing w t) (hfd : ∀ n,t.fds fd≠some (.event n)) :
    Closing w {t with fds := Function.update t.fds fd d} :=
  ⟨h.distinct,fun v hv => update_of_event hfd _ _ (h.counters v hv),h.answers⟩

/-- A blocked wait returns with the answer it was given. -/
theorem Closing.resume (h : Closing w t) (hv : v∈t.blocked) : Closing w (afterYield t v) := by
  refine ⟨h.distinct.sublist (List.filter_sublist.map _),fun u hu => ?_,?_⟩
  · obtain ⟨hmem,hne⟩ := List.mem_filter.mp hu
    replace hne : u.notifyfd≠v.notifyfd := by simpa using hne
    exact (Function.update_of_ne hne ..).trans (h.counters u hmem)
  · obtain ⟨answers,hlog,hperm⟩ := h.answers
    have hread : (if eventfdRead t.fds v.notifyfd=some 1 then (0 : ℤ) else -1)=
        if w.fds v.notifyfd=some (.event 1) then 0 else -1 := by
      simp only [eventfdRead,h.counters v hv]
      split_ifs <;> simp_all
    refine ⟨answers++[verdict w v],?_,?_⟩
    · show t.log++[_]=_
      rw [hlog,List.append_assoc,hread]
      rfl
    · have hsplit := (perm_cons_filter_ne h.distinct hv).map (verdict w)
      refine List.Perm.trans ?_ hperm
      rw [List.append_assoc]
      exact hsplit.symm.append_left _

/-- Nothing else can happen without a fault. -/
theorem Closing.step (h : Closing w t) (hs : step ⟨t,false⟩ b=some (.ok s)) :
    s.alive=false ∧ Closing w s.world := by
  cases b with
  | destroy =>
    cases hs
    exact ⟨rfl,h⟩
  | call a =>
    simp only [SemaphoreDestroy.step,Bool.false_or] at hs
    split_ifs at hs with hreads
    swap
    · cases hs
    obtain ⟨r,hr,hs⟩ := Option.map_eq_some_iff.mp hs
    obtain ⟨t',rfl,rfl⟩ := map_eq_ok hs
    refine ⟨rfl,?_⟩
    cases a with
    | wait c context timeout fd allocated => simp [reads] at hreads
    | signal context => simp [reads] at hreads
    | resume c =>
      simp only [Semaphore.step] at hr
      split at hr
      next v hv =>
        cases hr
        exact h.resume (List.mem_of_find?_eq_some hv)
      · cases hr
    | openOther fd =>
      simp only [Semaphore.step] at hr
      split_ifs at hr with hfd
      cases hr
      exact h.elsewhere fun n => by simp [hfd]
    | closeOther fd =>
      simp only [Semaphore.step] at hr
      split_ifs at hr with hfd
      cases hr
      exact h.elsewhere fun n => by simp [hfd]

/-- A semaphore whose waits have no timer is destroyed. This goes through, and in every run
from there the waits that were blocked are answered one by one, those that were granted with
0 and the others with -1. Those that are still blocked can be read. -/
theorem destroy_answers_waits {l : SemaphoreFairness.Ledger}
    (h : SemaphoreFairness.Reachable value l) :
    ∃ s,step ⟨l.world,true⟩ .destroy=some (.ok s) ∧
      ∀ s',Runs step (fun _ _ => True) s s' →
        (∃ answers,s'.world.log=l.world.log++answers ∧
          (answers++s'.world.blocked.map (verdict l.world)).Perm
            (l.world.blocked.map (verdict l.world))) ∧
        ∀ v∈s'.world.blocked,(eventfdRead s'.world.fds v.notifyfd).isSome=true := by
  obtain ⟨t,ht,hclosing⟩ := destroy_of_fair (SemaphoreFairness.kept_of_reachable h).fair
  refine ⟨_,ht,fun s hrun => ?_⟩
  have hend : s.alive=false ∧ Closing l.world s.world := by
    refine hrun.invariant (fun s => s.alive=false ∧ Closing l.world s.world) ⟨rfl,hclosing⟩ ?_
    rintro ⟨t,alive⟩ b s ⟨rfl,hi⟩ - hs
    exact hi.step hs
  refine ⟨hend.2.answers,fun v hv => ?_⟩
  simp only [eventfdRead,hend.2.counters v hv]
  split_ifs <;> simp_all

/-- Two waits are blocked, of which the first was granted. -/
def grantedThenDestroyed : List (ℕ×Semaphore.Act) :=
  [(0,.wait 0 .symmetric (-1) 5 true),(1,.wait 1 .symmetric (-1) 6 true),(2,.signal .symmetric)]

/-- Two callers wait, one of them granted, and both are answered after the destroy. -/
theorem destroy_answers_waits_grantedThenDestroyed :
    ∃ l s,SemaphoreFairness.Reachable 0 l ∧ step ⟨l.world,true⟩ .destroy=some (.ok s) ∧
      ∃ s',Runs step (fun _ _ => True) s s' ∧ s'.world.log=l.world.log++[.wait 1 (-1),.wait 0 0] ∧
        (∃ answers,s'.world.log=l.world.log++answers ∧
          (answers++s'.world.blocked.map (verdict l.world)).Perm
            (l.world.blocked.map (verdict l.world))) := by
  have h : ((replayWhile SemaphoreFairness.step (fun s a => SemaphoreFairness.patient s a=true)
      ⟨newSemaphore ⟨0,[],none⟩,[]⟩ grantedThenDestroyed).bind fun l =>
        (replay step ⟨l.world,true⟩ [.destroy,.call (.resume 1),.call (.resume 0)]).map fun s' =>
          (l.world.log,s'.world.log))=some ([.signal 0],[.signal 0,.wait 1 (-1),.wait 0 0]) := by
    decide +kernel
  obtain ⟨l,hl,h⟩ := Option.bind_eq_some_iff.mp h
  obtain ⟨s',hs',hq⟩ := Option.map_eq_some_iff.mp h
  simp only [Prod.mk.injEq] at hq
  have hreach : SemaphoreFairness.Reachable 0 l := ⟨_,rfl,runs_of_replayWhile hl⟩
  obtain ⟨s,hs,hafter⟩ := destroy_answers_waits hreach
  rw [replay,hs] at hs'
  have hrun := runs_of_replay hs'
  exact ⟨l,s,hreach,hs,s',hrun,by rw [hq.1,hq.2]; rfl,(hafter s' hrun).1⟩

/-! ## A wait that has expired -/

/-- What a step does to the queue, the counters and the log. -/
inductive Effect (w : World) : Semaphore.Act → World → Prop
  /-- A wait takes a permit, is refused, or gets no memory for its node. -/
  | returned {c : ℕ} {context : Context} {timeout fd : ℤ} {allocated : Bool} {ret : ℤ} {semval : ℕ}
      {fds : Table} (hval : semval≤w.sem.semval) (hfd : ∀ x≠fd,fds x=w.fds x)
      (hopen : w.fds fd=none) :
      Effect w (.wait c context timeout fd allocated)
        (reply {w with sem := {w.sem with semval := semval},fds := fds} (.wait c ret))
  /-- A wait blocks. -/
  | queued {c : ℕ} {context : Context} {timeout fd : ℤ} {allocated : Bool} {timed : Bool}
      (hval : w.sem.semval=0) (hopen : w.fds fd=none) :
      Effect w (.wait c context timeout fd allocated) (enterQueue w c fd timed)
  /-- A signal is refused. -/
  | refused {context : Context} : Effect w (.signal context) (reply w (.signal (-1)))
  /-- A signal is counted. -/
  | counted {context : Context} (hq : w.sem.wqueue=[]) :
      Effect w (.signal context)
        (reply {w with sem := {w.sem with semval := w.sem.semval+1}} (.signal 0))
  /-- A signal takes the first node. -/
  | woken {context : Context} {head : Node} {rest : List Node} {fds : Table}
      (hq : w.sem.wqueue=head::rest) (hwrite : eventfdWrite w.fds head.notifyfd 1=some fds) :
      Effect w (.signal context)
        (reply {w with sem := popNode w.sem head rest,fds := fds} (.signal 0))
  /-- A blocked wait returns. -/
  | resumed {c : ℕ} {v : Waiter} (hv : v∈w.blocked) : Effect w (.resume c) (afterYield w v)
  /-- The program opens a descriptor. -/
  | opened {fd : ℤ} (hfd : w.fds fd=none) :
      Effect w (.openOther fd) {w with fds := Function.update w.fds fd (some .other)}
  /-- The program closes a descriptor. -/
  | closed {fd : ℤ} (hfd : w.fds fd=some .other) :
      Effect w (.closeOther fd) {w with fds := close w.fds fd}

/-- Every step has one of the effects. -/
theorem effect_of_step (h : Semaphore.step w a=some (.ok t)) : Effect w a t := by
  cases a with
  | wait c context timeout fd allocated =>
    simp only [Semaphore.step] at h
    split_ifs at h with hfree
    replace h := Option.some.inj h
    unfold dycoSemaphoreWait at h
    split_ifs at h with hpos hzero halloc <;> cases h
    · exact .returned (Nat.sub_le ..) (fun _ _ => rfl) hfree.1
    · exact .returned le_rfl (fun _ _ => rfl) hfree.1
    · exact .queued (Nat.eq_zero_of_not_pos hpos) hfree.1
    · exact .returned le_rfl (fun x hx => Function.update_of_ne hx ..) hfree.1
  | signal context =>
    simp only [Semaphore.step,Option.some.injEq] at h
    unfold dycoSemaphoreSignal at h
    split at h
    · cases h
      exact .refused
    split at h
    next hq =>
      cases h
      exact .counted hq
    next head rest hq =>
      split at h
      · cases h
        exact .refused
      split at h
      · cases h
      next fds hwrite =>
        cases h
        exact .woken hq hwrite
  | resume c =>
    simp only [Semaphore.step] at h
    split at h
    next v hv =>
      cases h
      exact .resumed (List.mem_of_find?_eq_some hv)
    · cases h
  | openOther fd =>
    simp only [Semaphore.step] at h
    split_ifs at h with hfd
    cases h
    exact .opened hfd
  | closeOther fd =>
    simp only [Semaphore.step] at h
    split_ifs at h with hfd
    cases h
    exact .closed hfd

/-- The wait queue is properly linked, also behind a wait that has expired. -/
structure Threaded (w : World) : Prop where
  ids : (w.sem.wqueue.map Node.id).Nodup
  fresh : ∀ n∈w.sem.wqueue,n.id<w.nextNode
  tail : w.sem.wtail=w.sem.wqueue.getLast?.map Node.id
  exhausted : w.sem.wqueue≠[] → w.sem.semval=0

/-- Every effect keeps the list of nodes threaded through the callers. -/
theorem Threaded.effect (h : Threaded w) (ha : Effect w a t) : Threaded t := by
  cases ha with
  | returned hval =>
    exact ⟨h.ids,h.fresh,h.tail,fun hq => Nat.eq_zero_of_le_zero (hval.trans (h.exhausted hq).le)⟩
  | @queued _ _ _ fd _ _ hval =>
    have hid : w.nextNode∉w.sem.wqueue.map Node.id := by
      intro hm
      obtain ⟨n,hn,he⟩ := List.mem_map.mp hm
      exact absurd (h.fresh n hn) (by omega)
    unfold enterQueue
    rw [pushNode_eq _ h.ids h.tail]
    refine ⟨?_,fun n hn => ?_,by simp,fun _ => hval⟩
    · simpa [List.nodup_append,h.ids] using hid
    · rcases List.mem_append.mp hn with hn|hn
      · exact (h.fresh n hn).trans (Nat.lt_succ_self _)
      · rw [List.mem_singleton.mp hn]
        exact Nat.lt_succ_self _
  | refused => exact ⟨h.ids,h.fresh,h.tail,h.exhausted⟩
  | counted hq => exact ⟨h.ids,h.fresh,h.tail,fun hne => absurd hq hne⟩
  | @woken _ head rest _ hq =>
    rw [popNode_eq hq h.ids h.tail]
    have hids := h.ids
    rw [hq] at hids
    refine ⟨(List.nodup_cons.mp hids).2,fun n hn => ?_,rfl,fun _ => ?_⟩
    · exact h.fresh n (hq ▸ List.mem_cons_of_mem _ hn)
    · exact h.exhausted (by simp [hq])
  | resumed => exact ⟨h.ids,h.fresh,h.tail,h.exhausted⟩
  | opened => exact ⟨h.ids,h.fresh,h.tail,h.exhausted⟩
  | closed => exact ⟨h.ids,h.fresh,h.tail,h.exhausted⟩

/-- A blocked wait has its counter, and while the counter is zero a node in the queue. -/
structure Heard (w : World) : Prop where
  threaded : Threaded w
  counters : ∀ v∈w.blocked,∃ n,w.fds v.notifyfd=some (.event n)
  distinct : (w.blocked.map Waiter.notifyfd).Nodup
  queued : ∀ v∈w.blocked,w.fds v.notifyfd=some (.event 0) →
    ∃ n∈w.sem.wqueue,n.notifyfd=v.notifyfd

/-- Counters that only grow keep what blocked waits have. -/
theorem Heard.of_table (h : Heard w) (ht : Threaded t) (hb : t.blocked=w.blocked)
    (hgrow : ∀ x n,w.fds x=some (.event n) → ∃ k,t.fds x=some (.event (n+k)))
    (hqueue : ∀ n∈w.sem.wqueue,n∈t.sem.wqueue ∨ t.fds n.notifyfd≠some (.event 0)) : Heard t := by
  refine ⟨ht,fun v hv => ?_,hb ▸ h.distinct,fun v hv hzero => ?_⟩ <;> rw [hb] at hv
  · obtain ⟨n,hn⟩ := h.counters v hv
    obtain ⟨k,hk⟩ := hgrow _ n hn
    exact ⟨_,hk⟩
  · obtain ⟨n,hn⟩ := h.counters v hv
    obtain ⟨k,hk⟩ := hgrow _ n hn
    rw [hk] at hzero
    simp only [Option.some.injEq,Desc.event.injEq] at hzero
    obtain ⟨m,hm,hfd⟩ := h.queued v hv (by rw [hn]; congr 2; omega)
    rcases hqueue m hm with hkept|hne
    · exact ⟨m,hkept,hfd⟩
    · rw [hfd,hk,hzero] at hne
      exact absurd rfl hne

/-- The counter of a blocked wait is not a number that is free or belongs to others. -/
theorem Heard.ne_of_event (h : Heard w) (hfd : ∀ n,w.fds fd≠some (.event n)) (hv : v∈w.blocked) :
    v.notifyfd≠fd := by
  rintro rfl
  obtain ⟨n,hn⟩ := h.counters v hv
  exact hfd n hn

/-- Every effect keeps the callers notified that left the list. -/
theorem Heard.effect (h : Heard w) (ha : Effect w a t) : Heard t := by
  have ht := h.threaded.effect ha
  cases ha with
  | @returned _ _ _ fd _ _ _ fds hval hfd hopen =>
    refine h.of_table ht rfl (fun x n hn => ⟨0,?_⟩) fun n hn => .inl hn
    exact (hfd x fun he => by simp [he,hopen] at hn).trans hn
  | @queued c _ _ fd _ timed hval hopen =>
    have hne : ∀ v∈w.blocked,v.notifyfd≠fd :=
      fun v hv => h.ne_of_event (fun n => by simp [hopen]) hv
    have hqueue : (enterQueue w c fd timed).sem.wqueue=w.sem.wqueue++[⟨w.nextNode,fd⟩] := by
      show (pushNode w.sem _).wqueue=_
      rw [pushNode_eq _ h.threaded.ids h.threaded.tail]
    refine ⟨ht,fun v hv => ?_,?_,fun v hv hzero => ?_⟩
    · rcases List.mem_append.mp hv with hv|hv
      · obtain ⟨n,hn⟩ := h.counters v hv
        exact ⟨n,(Function.update_of_ne (hne v hv) ..).trans hn⟩
      · rw [List.mem_singleton.mp hv]
        exact ⟨0,Function.update_self ..⟩
    · show ((w.blocked++[_]).map Waiter.notifyfd).Nodup
      rw [List.map_append,List.nodup_append]
      exact ⟨h.distinct,by simp,by simpa using hne⟩
    · rw [hqueue]
      rcases List.mem_append.mp hv with hv|hv
      · have hsame := (Function.update_of_ne (hne v hv) ..).symm.trans hzero
        obtain ⟨n,hn,hfd⟩ := h.queued v hv hsame
        exact ⟨n,List.mem_append_left _ hn,hfd⟩
      · rw [List.mem_singleton.mp hv]
        exact ⟨_,List.mem_append_right _ (List.mem_singleton.mpr rfl),rfl⟩
  | refused => exact h.of_table ht rfl (fun x n hn => ⟨0,hn⟩) fun n hn => .inl hn
  | counted => exact h.of_table ht rfl (fun x n hn => ⟨0,hn⟩) fun n hn => .inl hn
  | @woken _ head rest fds hq hwrite =>
    refine h.of_table ht rfl (fun x n hn => eventfdWrite_grows hwrite hn) fun n hn => ?_
    rw [hq] at hn
    rcases List.mem_cons.mp hn with rfl|hn
    · exact .inr (eventfdWrite_ne_zero hwrite Nat.one_pos)
    · left
      show n∈(popNode w.sem head rest).wqueue
      rw [popNode_eq hq h.threaded.ids h.threaded.tail]
      exact hn
  | @resumed _ v hv =>
    have hother : ∀ u∈(afterYield w v).blocked,u∈w.blocked ∧
        (afterYield w v).fds u.notifyfd=w.fds u.notifyfd := by
      intro u hu
      obtain ⟨hmem,hne⟩ := List.mem_filter.mp hu
      exact ⟨hmem,Function.update_of_ne (by simpa using hne) ..⟩
    refine ⟨ht,fun u hu => ?_,h.distinct.sublist (List.filter_sublist.map _),fun u hu hzero => ?_⟩
    · obtain ⟨hmem,hsame⟩ := hother u hu
      rw [hsame]
      exact h.counters u hmem
    · obtain ⟨hmem,hsame⟩ := hother u hu
      exact h.queued u hmem (hsame.symm.trans hzero)
  | opened hfd =>
    exact h.of_table ht rfl (fun x n hn => ⟨0,update_of_event (by simp [hfd]) x n hn⟩)
      fun n hn => .inl hn
  | closed hfd =>
    exact h.of_table ht rfl (fun x n hn => ⟨0,update_of_event (by simp [hfd]) x n hn⟩)
      fun n hn => .inl hn

/-- Along every run a caller that is off the list was notified. -/
theorem heard_of_reachable (h : Semaphore.Reachable value (fun _ _ => True) w) : Heard w := by
  obtain ⟨sem,hsem,h⟩ := h
  unfold dycoSemaphoreCreate at hsem
  split_ifs at hsem
  cases hsem
  refine h.invariant Heard ⟨?_,?_,?_,?_⟩ fun _ _ _ hi _ ha => hi.effect (effect_of_step ha)
  · constructor <;> simp [newSemaphore]
  all_goals simp [newSemaphore]

/-- The action does not get this number from the kernel. -/
def avoids (fd : ℤ) : Semaphore.Act → Bool
  | .wait _ _ _ x _ => x≠fd
  | .openOther x => x≠fd
  | _ => true

/-- The queue has a node with a closed descriptor, and when `total` signals have returned 0
it is the first one. -/
structure Stale (fd : ℤ) (total : ℕ) (w : World) : Prop where
  threaded : Threaded w
  closed : w.fds fd=none
  node : ∃ pre n post,w.sem.wqueue=pre++n::post ∧ n.notifyfd=fd ∧ released w+pre.length=total

/-- A call that returns is counted by what it releases. -/
theorem released_reply (w : World) (r : Reply) :
    released (reply w r)=released w+if r.releases then 1 else 0 := by
  simp only [released,reply,List.countP_append,List.countP_singleton]

/-- A stale node stays in the queue, one place further on with every permit. -/
theorem Stale.effect {total : ℕ} (h : Stale fd total w) (hav : avoids fd a=true)
    (ha : Effect w a t) : Stale fd total t := by
  have ht := h.threaded.effect ha
  obtain ⟨pre,n,post,hq,hn,htotal⟩ := h.node
  cases ha with
  | @returned _ _ _ x _ _ _ _ hval hfd hopen =>
    have hne : fd≠x := (of_decide_eq_true hav).symm
    refine ⟨ht,(hfd fd hne).trans h.closed,pre,n,post,hq,hn,?_⟩
    rw [released_reply]
    exact htotal
  | @queued c _ _ x _ timed hval hopen =>
    have hne : fd≠x := (of_decide_eq_true hav).symm
    refine ⟨ht,(Function.update_of_ne hne ..).trans h.closed,pre,n,post++[⟨w.nextNode,x⟩],?_,hn,
      htotal⟩
    show (pushNode w.sem _).wqueue=_
    rw [pushNode_eq _ h.threaded.ids h.threaded.tail,hq]
    simp
  | refused =>
    refine ⟨ht,h.closed,pre,n,post,hq,hn,?_⟩
    rw [released_reply]
    exact htotal
  | counted hnil => simp [hnil] at hq
  | @woken _ head rest fds hhead hwrite =>
    cases pre with
    | nil =>
      obtain ⟨rfl,-⟩ := List.cons.inj (hhead.symm.trans hq)
      simp [eventfdWrite,hn,h.closed] at hwrite
    | cons p pre =>
      obtain ⟨rfl,rfl⟩ := List.cons.inj (hhead.symm.trans hq)
      refine ⟨ht,eventfdWrite_domain hwrite h.closed,pre,n,post,?_,hn,?_⟩
      · exact congrArg Sem.wqueue (popNode_eq hq h.threaded.ids h.threaded.tail)
      · rw [released_reply,← htotal,List.length_cons]
        show released w+1+_=_
        omega
  | @resumed _ v hv =>
    refine ⟨ht,?_,pre,n,post,hq,hn,?_⟩
    · by_cases hfd : fd=v.notifyfd
      · rw [hfd]
        exact Function.update_self ..
      · exact (Function.update_of_ne hfd ..).trans h.closed
    · rw [← htotal]
      congr 1
      exact released_reply _ (.wait _ _)
  | @opened x hfd =>
    have hne : fd≠x := (of_decide_eq_true hav).symm
    exact ⟨ht,(Function.update_of_ne hne ..).trans h.closed,pre,n,post,hq,hn,htotal⟩
  | @closed x hfd =>
    have hne : fd≠x := by
      rintro rfl
      simp [h.closed] at hfd
    exact ⟨ht,(Function.update_of_ne hne ..).trans h.closed,pre,n,post,hq,hn,htotal⟩

/-- `dyco_semaphore_destroy` fails on a stale node. -/
theorem Stale.destroy {total : ℕ} (h : Stale fd total w) :
    dycoSemaphoreDestroy ⟨w,true⟩=.error .must := by
  obtain ⟨pre,n,post,hq,hn,-⟩ := h.node
  have hnone : eventfdWriteEach w.fds (w.sem.wqueue.map Node.notifyfd) 64=none :=
    eventfdWriteEach_eq_none (by simp [hq,← hn]) h.closed
  simp [dycoSemaphoreDestroy,hnone]

/-- `dyco_semaphore_signal` fails once the stale node is the first one. -/
theorem Stale.signal {context : Context} (h : Stale fd (released w) w) (hc : context≠.outside) :
    Semaphore.step w (.signal context)=some (.error .must) := by
  obtain ⟨pre,n,post,hq,hn,htotal⟩ := h.node
  obtain rfl : pre=[] := List.eq_nil_of_length_eq_zero (by omega)
  have hval : w.sem.semval=0 := h.threaded.exhausted (by simp [hq])
  have hmax : w.sem.semval≠semValueMax := by
    rw [hval]
    decide
  have hwrite : eventfdWrite w.fds n.notifyfd 1=none := by simp [eventfdWrite,hn,h.closed]
  rw [List.nil_append] at hq
  simp only [Semaphore.step,dycoSemaphoreSignal,if_neg hmax,hq,if_neg hc,hwrite]

/-- A wait whose counter was not written to expires. It returns -1 and leaves its node in the
queue, behind those of `pre`. In every run from there in which its number is not handed out
again, no more signals return 0 than there are nodes in `pre`. After these the next signal of
a coroutine ends the process, and `dyco_semaphore_destroy` ends it at any time. -/
theorem expired_wait_is_fatal (h : Semaphore.Reachable value (fun _ _ => True) w)
    (hv : v∈w.blocked) (hzero : w.fds v.notifyfd=some (.event 0)) :
    (afterYield w v).log=w.log++[.wait v.co (-1)] ∧
    ∃ pre n post,w.sem.wqueue=pre++n::post ∧ n.notifyfd=v.notifyfd ∧
      ∀ u,Runs Semaphore.step (fun _ a => avoids v.notifyfd a=true) (afterYield w v) u →
        released u ≤ released w+pre.length ∧
        (released u=released w+pre.length → ∀ context,context≠.outside →
          Semaphore.step u (.signal context)=some (.error .must)) ∧
        dycoSemaphoreDestroy ⟨u,true⟩=.error .must := by
  have hheard := heard_of_reachable h
  obtain ⟨n,hn,hfd⟩ := hheard.queued v hv hzero
  obtain ⟨pre,post,hq⟩ := List.append_of_mem hn
  have hstale : Stale v.notifyfd (released w+pre.length) (afterYield w v) := by
    refine ⟨hheard.threaded.effect (.resumed (c := v.co) hv),Function.update_self ..,
      pre,n,post,hq,hfd,?_⟩
    congr 1
    exact released_reply _ (.wait _ _)
  refine ⟨by simp [afterYield,reply,eventfdRead,hzero],pre,n,post,hq,hfd,fun u hrun => ?_⟩
  have hend : Stale v.notifyfd (released w+pre.length) u :=
    hrun.invariant (Stale v.notifyfd (released w+pre.length)) hstale
      fun _ _ _ hi hav ha => hi.effect hav (effect_of_step ha)
  obtain ⟨pre',-,-,-,-,htotal⟩ := hend.node
  refine ⟨by omega,fun heq context hc => ?_,hend.destroy⟩
  rw [← heq] at hend
  exact hend.signal hc

/-- The second of two waits can expire. -/
def oneBeforeExpiry : List Semaphore.Act :=
  [.wait 0 .symmetric (-1) 5 true,.wait 1 .symmetric 10 6 true]

/-- The second of two waits expires: the next signal reaches the first, the one after it fails. -/
theorem expired_wait_is_fatal_oneBeforeExpiry :
    ∃ w u,Semaphore.Reachable 0 (fun _ _ => True) w ∧
      Runs Semaphore.step (fun _ a => avoids 6 a=true) (afterYield w ⟨1,6,true⟩) u ∧
      u.log=[.wait 1 (-1),.signal 0] ∧
      Semaphore.step u (.signal .symmetric)=some (.error .must) ∧
      dycoSemaphoreDestroy ⟨u,true⟩=.error .must := by
  have h : ((replayWhile Semaphore.step (fun _ _ => True) (newSemaphore ⟨0,[],none⟩)
      oneBeforeExpiry).bind fun w =>
        (replayWhile Semaphore.step (fun _ a => avoids 6 a=true) (afterYield w ⟨1,6,true⟩)
          [.signal .symmetric]).map fun u =>
            (u.log,[released u,released w,w.sem.wqueue.length],w.fds 6,
              w.blocked.any fun v => decide ((v.co,v.notifyfd,v.timed)=(1,6,true))))=
      some ([.wait 1 (-1),.signal 0],[1,0,2],some (.event 0),true) := by
    decide +kernel
  obtain ⟨w,hw,h⟩ := Option.bind_eq_some_iff.mp h
  obtain ⟨u,hu,hq⟩ := Option.map_eq_some_iff.mp h
  simp only [Prod.mk.injEq,List.cons.injEq,and_true] at hq
  obtain ⟨hlog,⟨hrelu,hrelw,hlength⟩,hzero,hblocked⟩ := hq
  have hreach : Semaphore.Reachable 0 (fun _ _ => True) w := ⟨_,rfl,runs_of_replayWhile hw⟩
  have hv : (⟨1,6,true⟩ : Waiter)∈w.blocked := by
    obtain ⟨⟨co,fd,timed⟩,hv,he⟩ := List.any_eq_true.mp hblocked
    simp only [decide_eq_true_eq] at he
    obtain ⟨rfl,rfl,rfl⟩ := he
    exact hv
  obtain ⟨-,pre,n,post,hsplit,-,hfatal⟩ := expired_wait_is_fatal hreach hv hzero
  have hrun := runs_of_replayWhile hu
  obtain ⟨hbound,hsignal,hdestroy⟩ := hfatal u hrun
  rw [hsplit,List.length_append,List.length_cons] at hlength
  exact ⟨w,u,hreach,hrun,hlog,hsignal (by omega) _ (by decide),hdestroy⟩

end DycoCoroutine.SemaphoreDestroy
