import DycoCoroutine.EventFd
import DycoCoroutine.RunInvariant
import DycoCoroutine.ScheduleState

/-!
# The semaphore

`dyco_semaphore.c` as a machine of one semaphore, any number of callers and the
descriptor table of the process. Every blocked wait has an event descriptor of
its own and a node in the wait queue; a signal takes the first node and writes
to its descriptor. A wait that expires closes its descriptor and leaves its node
behind. As long as no wait is resumed before it was granted, permits are
conserved: each successful signal ends in the counter or with exactly one wait.
-/

namespace DycoCoroutine.Semaphore

open ScheduleState RunInvariant EventFd

/-- DYCO_SEM_VALUE_MAX -/
def semValueMax : ℕ := 0x7fffffff

/-- `struct notifylist`, as a node of the wait queue. -/
structure Node where
  /-- The address of the node. -/
  id : ℕ
  /-- `notifyfd` -/
  notifyfd : ℤ
  deriving DecidableEq

/-- `struct semaphore` -/
structure Sem where
  /-- `semval` -/
  semval : ℕ
  /-- The nodes reached from `wqueue`, first node first. -/
  wqueue : List Node
  /-- `wtail`, by its address. -/
  wtail : Option ℕ

/-- A call of `dyco_semaphore_wait` that is blocked in `yield`. -/
structure Waiter where
  /-- The coroutine. -/
  co : ℕ
  /-- The descriptor of the call. -/
  notifyfd : ℤ
  /-- Whether a timer was set. -/
  timed : Bool

/-- A call that has returned. -/
inductive Reply
  | wait (co : ℕ) (ret : ℤ)
  | signal (ret : ℤ)
  deriving DecidableEq

/-- A semaphore, its callers and the descriptors of the process. -/
structure World where
  /-- The semaphore. -/
  sem : Sem
  /-- The descriptor table. -/
  fds : Table
  /-- The next address the allocator hands out. -/
  nextNode : ℕ
  /-- The blocked waits. -/
  blocked : List Waiter
  /-- The calls that have returned, oldest first. -/
  log : List Reply

/-- `dyco_semaphore_create` -/
def dycoSemaphoreCreate (value : ℕ) : Option Sem :=
  if value>semValueMax then none else some ⟨value,[],none⟩

/-- A call returns. -/
def reply (w : World) (r : Reply) : World := {w with log := w.log++[r]}

/-- `wtail->next = wnode`: whatever followed the tail node is cut off. -/
def linkAfter (tail : Option ℕ) (node : Node) : List Node → List Node
  | [] => []
  | n::rest => if some n.id=tail then [n,node] else n::linkAfter tail node rest

/-- The wait queue with a new node. -/
def pushNode (sem : Sem) (node : Node) : Sem :=
  if sem.wqueue=[] then {sem with wqueue := [node],wtail := some node.id}
  else {sem with wqueue := linkAfter sem.wtail node sem.wqueue,wtail := some node.id}

/-- A wait opens its descriptor, queues its node and suspends. -/
def enterQueue (w : World) (c : ℕ) (fd : ℤ) (timed : Bool) : World :=
  {w with
    sem := pushNode w.sem ⟨w.nextNode,fd⟩
    fds := openEvent w.fds fd
    nextNode := w.nextNode+1
    blocked := w.blocked++[⟨c,fd,timed⟩]}

/-- `dyco_semaphore_wait` up to its return or to `yield`, with the descriptor
that `eventfd` returns and the outcome of `malloc`. -/
def dycoSemaphoreWait (w : World) (c : ℕ) (context : Context) (timeout fd : ℤ) (allocated : Bool) :
    Except Fault World :=
  if 0<w.sem.semval then
    .ok (reply {w with sem := {w.sem with semval := w.sem.semval-1}} (.wait c 0))
  else if timeout=0 ∨ context=.outside then .ok (reply w (.wait c (-1)))
  else if allocated then .ok (enterQueue w c fd (0<timeout))
  else .ok (reply {w with fds := openEvent w.fds fd} (.wait c (-1)))

/-- The end of `dyco_semaphore_wait` after `yield`: the counter is read and the
descriptor closed. The node stays where it is. -/
def afterYield (w : World) (v : Waiter) : World :=
  let ret := if eventfdRead w.fds v.notifyfd=some 1 then 0 else -1
  reply {w with
    fds := close w.fds v.notifyfd
    blocked := w.blocked.filter fun u => u.notifyfd≠v.notifyfd} (.wait v.co ret)

/-- The wait queue without its first node. -/
def popNode (sem : Sem) (head : Node) (rest : List Node) : Sem :=
  if sem.wtail=some head.id then {sem with wqueue := [],wtail := none}
  else {sem with wqueue := rest}

/-- `dyco_semaphore_signal` -/
def dycoSemaphoreSignal (w : World) (context : Context) : Except Fault World :=
  if w.sem.semval=semValueMax then .ok (reply w (.signal (-1)))
  else match w.sem.wqueue with
    | [] => .ok (reply {w with sem := {w.sem with semval := w.sem.semval+1}} (.signal 0))
    | head::rest =>
      if context=.outside then .ok (reply w (.signal (-1)))
      else match eventfdWrite w.fds head.notifyfd 1 with
        | none => .error .must
        | some fds => .ok (reply {w with sem := popNode w.sem head rest,fds := fds} (.signal 0))

/-- What can happen next. -/
inductive Act
  /-- `dyco_semaphore_wait` -/
  | wait (c : ℕ) (context : Context) (timeout fd : ℤ) (allocated : Bool)
  /-- `dyco_semaphore_signal` -/
  | signal (context : Context)
  /-- The scheduler resumes a blocked wait. -/
  | resume (c : ℕ)
  /-- The program opens a descriptor of its own. -/
  | openOther (fd : ℤ)
  /-- The program closes a descriptor of its own. -/
  | closeOther (fd : ℤ)

/-- Asymmetric coroutines, which the semaphore does not support, make no calls that would
block them. -/
def supported (w : World) (context : Context) (timeout : ℤ) : Bool :=
  context≠.asymmetric || 0<w.sem.semval || timeout=0

/-- One step of a semaphore and its callers. -/
def step (w : World) : Act → Option (Except Fault World)
  | .wait c context timeout fd allocated =>
    if w.fds fd=none ∧ w.blocked.all (fun v => v.co≠c) ∧ supported w context timeout then
      some (dycoSemaphoreWait w c context timeout fd allocated)
    else none
  | .signal context => some (dycoSemaphoreSignal w context)
  | .resume c =>
    match w.blocked.find? fun v => v.co=c with
    | some v => some (.ok (afterYield w v))
    | none => none
  | .openOther fd =>
    if w.fds fd=none then some (.ok {w with fds := Function.update w.fds fd (some .other)})
    else none
  | .closeOther fd =>
    if w.fds fd=some .other then some (.ok {w with fds := close w.fds fd}) else none

/-- A new semaphore that nobody has called yet, in a process without
descriptors. -/
def newSemaphore (sem : Sem) : World := ⟨sem,fun _ => none,0,[],[]⟩

/-- The states that a semaphore of this initial value can reach when every step
meets `cond`. -/
def Reachable (value : ℕ) (cond : World → Act → Prop) (w : World) : Prop :=
  ∃ sem,dycoSemaphoreCreate value=some sem ∧ Runs step cond (newSemaphore sem) w

/-- A wait that returned 0. -/
def Reply.acquires : Reply → Bool
  | .wait _ ret => ret=0
  | .signal _ => false

/-- A signal that returned 0. -/
def Reply.releases : Reply → Bool
  | .wait _ _ => false
  | .signal ret => ret=0

/-- The number of waits that have returned 0. -/
def acquired (w : World) : ℕ := w.log.countP Reply.acquires

/-- The number of signals that have returned 0. -/
def released (w : World) : ℕ := w.log.countP Reply.releases

/-- The number of blocked waits whose counter is 1, which will return 0. -/
def granted (w : World) : ℕ :=
  tally (fun d => d=some (.event 1)) w.fds (w.blocked.map Waiter.notifyfd)

/-- A blocked wait is resumed because its counter was written to or its timer has
expired. -/
def genuine (w : World) : Act → Bool
  | .resume c => w.blocked.any fun v => v.co=c && (v.timed || (eventfdRead w.fds v.notifyfd).isSome)
  | _ => true

/-- A wait is resumed only when its counter was written to. -/
def grantedFirst (w : World) : Act → Bool
  | .resume c => w.blocked.all fun v => v.co≠c || (eventfdRead w.fds v.notifyfd).isSome
  | _ => true

variable {w t : World} {value : ℕ} {a : Act}

/-- No permit is lost or made. -/
def Conserved (value : ℕ) (w : World) : Prop :=
  w.sem.semval+acquired w+granted w=value+released w

/-- The discipline of the wait queue. -/
structure Tidy (w : World) : Prop where
  /-- A blocked wait has been granted at most once. -/
  counters : ∀ v∈w.blocked,w.fds v.notifyfd=some (.event 0) ∨ w.fds v.notifyfd=some (.event 1)
  /-- Blocked waits have different descriptors. -/
  distinct : (w.blocked.map Waiter.notifyfd).Nodup
  /-- A queued node belongs to a blocked wait that was not granted. -/
  queue : ∀ n∈w.sem.wqueue,n.notifyfd∈w.blocked.map Waiter.notifyfd ∧
    w.fds n.notifyfd=some (.event 0)
  /-- Nodes have different descriptors. -/
  nodes : (w.sem.wqueue.map Node.notifyfd).Nodup
  /-- Nodes have different addresses. -/
  ids : (w.sem.wqueue.map Node.id).Nodup
  /-- Addresses are not reused while a node is queued. -/
  fresh : ∀ n∈w.sem.wqueue,n.id<w.nextNode
  /-- `wtail` is the last node. -/
  tail : w.sem.wtail=w.sem.wqueue.getLast?.map Node.id

/-- Linking after the last node appends. -/
theorem linkAfter_getLast {l : List Node} (node : Node) (hl : l≠[]) (hn : (l.map Node.id).Nodup) :
    linkAfter (l.getLast?.map Node.id) node l=l++[node] := by
  induction l with
  | nil => exact absurd rfl hl
  | cons n rest ih =>
    cases rest with
    | nil => simp [linkAfter]
    | cons m rest =>
      obtain ⟨hmem,hrest⟩ := List.nodup_cons.mp hn
      have hne : some n.id≠((n::m::rest).getLast?).map Node.id := by
        intro he
        have hlast := List.getLast?_eq_some_getLast (List.cons_ne_nil m rest)
        rw [List.getLast?_cons_cons,hlast] at he
        exact hmem (Option.some.inj he ▸ List.mem_map_of_mem (List.getLast_mem _))
      rw [linkAfter,if_neg hne,List.getLast?_cons_cons,ih (List.cons_ne_nil m rest) hrest]
      rfl

/-- In a properly linked queue a new node goes to the end. -/
theorem pushNode_eq {sem : Sem} (node : Node) (hids : (sem.wqueue.map Node.id).Nodup)
    (htail : sem.wtail=sem.wqueue.getLast?.map Node.id) :
    pushNode sem node={sem with wqueue := sem.wqueue++[node],wtail := some node.id} := by
  unfold pushNode
  split_ifs with hq
  · simp [hq]
  · rw [htail,linkAfter_getLast node hq hids]

/-- The first node is the tail exactly if it is the only one. -/
theorem popNode_eq {sem : Sem} {head : Node} {rest : List Node} (hq : sem.wqueue=head::rest)
    (hids : (sem.wqueue.map Node.id).Nodup) (htail : sem.wtail=sem.wqueue.getLast?.map Node.id) :
    popNode sem head rest={sem with wqueue := rest,wtail := rest.getLast?.map Node.id} := by
  rw [hq] at htail hids
  unfold popNode
  cases rest with
  | nil =>
    rw [htail]
    simp
  | cons m rest =>
    have hne : sem.wtail≠some head.id := by
      intro he
      have hlast := List.getLast?_eq_some_getLast (List.cons_ne_nil m rest)
      rw [htail,List.getLast?_cons_cons,hlast] at he
      have hmem := List.mem_map_of_mem (f := Node.id) (List.getLast_mem (List.cons_ne_nil m rest))
      rw [Option.some.inj he] at hmem
      exact (List.nodup_cons.mp hids).1 hmem
    rw [if_neg hne]
    congr 1

theorem Tidy.pushNode (h : Tidy w) (node : Node) :
    pushNode w.sem node={w.sem with wqueue := w.sem.wqueue++[node],wtail := some node.id} :=
  pushNode_eq node h.ids h.tail

theorem Tidy.popNode {head : Node} {rest : List Node} (h : Tidy w)
    (hq : w.sem.wqueue=head::rest) :
    (popNode w.sem head rest).semval=w.sem.semval ∧ (popNode w.sem head rest).wqueue=rest ∧
    (popNode w.sem head rest).wtail=rest.getLast?.map Node.id := by
  rw [popNode_eq hq h.ids h.tail]
  exact ⟨rfl,rfl,rfl⟩

theorem Tidy.reply (h : Tidy w) (r : Reply) : Tidy (reply w r) :=
  ⟨h.counters,h.distinct,h.queue,h.nodes,h.ids,h.fresh,h.tail⟩

/-- A number that is not in use belongs to no blocked wait. -/
theorem Tidy.not_mem {fd : ℤ} (h : Tidy w) (hfd : w.fds fd=none ∨ w.fds fd=some .other) :
    fd∉w.blocked.map Waiter.notifyfd := by
  intro hm
  obtain ⟨v,hv,rfl⟩ := List.mem_map.mp hm
  rcases h.counters v hv with hc|hc <;> simp [hc] at hfd

/-- A change of the table away from the blocked waits. -/
theorem Tidy.elsewhere {fd : ℤ} {d : Option Desc} (h : Tidy w)
    (hfd : fd∉w.blocked.map Waiter.notifyfd) :
    Tidy {w with fds := Function.update w.fds fd d} ∧
    granted {w with fds := Function.update w.fds fd d}=granted w := by
  have hsame : ∀ x∈w.blocked.map Waiter.notifyfd,Function.update w.fds fd d x=w.fds x :=
    fun x hx => Function.update_of_ne (fun he : x=fd => hfd (he ▸ hx)) ..
  refine ⟨⟨fun v hv => ?_,h.distinct,fun n hn => ?_,h.nodes,h.ids,h.fresh,h.tail⟩,
    tally_update_of_not_mem hfd⟩
  · dsimp only
    rw [hsame _ (List.mem_map_of_mem hv)]
    exact h.counters v hv
  · obtain ⟨hm,hc⟩ := h.queue n hn
    exact ⟨hm,(hsame _ hm).trans hc⟩

/-- A wait that blocks. -/
theorem Tidy.enterQueue {fd : ℤ} (h : Tidy w) (hfd : w.fds fd=none) (c : ℕ) (timed : Bool) :
    Tidy (enterQueue w c fd timed) ∧ granted (enterQueue w c fd timed)=granted w := by
  have hnew := h.not_mem (.inl hfd)
  obtain ⟨ht,hg⟩ := h.elsewhere (d := some (.event 0)) hnew
  have hqueue : fd∉w.sem.wqueue.map Node.notifyfd := by
    intro hm
    obtain ⟨n,hn,rfl⟩ := List.mem_map.mp hm
    exact hnew (h.queue n hn).1
  have hid : w.nextNode∉w.sem.wqueue.map Node.id := by
    intro hm
    obtain ⟨n,hn,he⟩ := List.mem_map.mp hm
    exact absurd (h.fresh n hn) (by omega)
  unfold Semaphore.enterQueue
  rw [h.pushNode]
  refine ⟨⟨fun v hv => ?_,?_,fun n hn => ?_,?_,?_,fun n hn => ?_,by simp⟩,?_⟩
  · rcases List.mem_append.mp hv with hv|hv
    · exact ht.counters v hv
    · rw [List.mem_singleton.mp hv]
      exact .inl (Function.update_self ..)
  · simpa [List.nodup_append,h.distinct] using hnew
  · rcases List.mem_append.mp hn with hn|hn
    · obtain ⟨hm,hc⟩ := ht.queue n hn
      exact ⟨by simpa using .inl (List.mem_map.mp hm),hc⟩
    · rw [List.mem_singleton.mp hn]
      exact ⟨by simp,Function.update_self ..⟩
  · simpa [List.nodup_append,h.nodes] using hqueue
  · simpa [List.nodup_append,h.ids] using hid
  · rcases List.mem_append.mp hn with hn|hn
    · exact (h.fresh n hn).trans (Nat.lt_succ_self _)
    · rw [List.mem_singleton.mp hn]
      exact Nat.lt_succ_self _
  · rw [← hg]
    simp only [granted,openEvent,List.map_append,List.map_cons,List.map_nil,tally_concat]
    simp

/-- The first queued node is signalled: its wait is granted. -/
theorem Tidy.signal {head : Node} {rest : List Node} (h : Tidy w) (hq : w.sem.wqueue=head::rest) :
    Tidy {w with
      sem := Semaphore.popNode w.sem head rest
      fds := Function.update w.fds head.notifyfd (some (.event 1))} ∧
    granted {w with
      sem := Semaphore.popNode w.sem head rest
      fds := Function.update w.fds head.notifyfd (some (.event 1))}=granted w+1 := by
  obtain ⟨-,hwq,hwt⟩ := h.popNode hq
  have hnodes := h.nodes
  have hids := h.ids
  rw [hq] at hnodes hids
  obtain ⟨hhead,hrest⟩ := List.nodup_cons.mp hnodes
  obtain ⟨hm,hc⟩ := h.queue head (hq ▸ List.mem_cons_self)
  have hold : ∀ n∈rest,n∈w.sem.wqueue := fun n hn => hq ▸ List.mem_cons_of_mem _ hn
  refine ⟨⟨fun v hv => ?_,h.distinct,fun n hn => ?_,?_,?_,fun n hn => ?_,?_⟩,?_⟩
  · by_cases hv' : v.notifyfd=head.notifyfd
    · exact .inr (by simp [hv'])
    · simpa [hv'] using h.counters v hv
  · rw [hwq] at hn
    obtain ⟨hm',hc'⟩ := h.queue n (hold n hn)
    have hne : n.notifyfd≠head.notifyfd := fun he => hhead (he ▸ List.mem_map_of_mem hn)
    exact ⟨hm',(Function.update_of_ne hne ..).trans hc'⟩
  · rw [hwq]
    exact hrest
  · rw [hwq]
    exact (List.nodup_cons.mp hids).2
  · rw [hwq] at hn
    exact h.fresh n (hold n hn)
  · rw [hwq,hwt]
  · have ht := tally_update_of_mem (p := fun d => d=some (.event 1)) (t := w.fds)
      (d := some (.event 1)) h.distinct hm
    simpa [granted,hc] using ht

/-- A granted wait returns. -/
theorem Tidy.afterYield {v : Waiter} (h : Tidy w) (hv : v∈w.blocked)
    (hr : w.fds v.notifyfd=some (.event 1)) :
    Tidy (afterYield w v) ∧ granted (afterYield w v)+1=granted w := by
  have hmap := map_filter_ne h.distinct v.notifyfd
  have hother : ∀ x≠v.notifyfd,Function.update w.fds v.notifyfd none x=w.fds x :=
    fun x hx => Function.update_of_ne hx ..
  have hm : v.notifyfd∈w.blocked.map Waiter.notifyfd := List.mem_map_of_mem hv
  refine ⟨⟨fun u hu => ?_,?_,fun n hn => ?_,h.nodes,h.ids,h.fresh,h.tail⟩,?_⟩
  · obtain ⟨hu,hne⟩ := List.mem_filter.mp hu
    have hcu := h.counters u hu
    rw [← hother u.notifyfd (by simpa using hne)] at hcu
    exact hcu
  · show (List.map _ (List.filter _ _)).Nodup
    rw [hmap]
    exact h.distinct.erase _
  · obtain ⟨hmn,hcn⟩ := h.queue n hn
    have hne : n.notifyfd≠v.notifyfd := by
      intro he
      rw [he,hr] at hcn
      cases hcn
    refine ⟨?_,(hother _ hne).trans hcn⟩
    show n.notifyfd∈List.map _ (List.filter _ _)
    rw [hmap]
    exact (List.mem_erase_of_ne hne).mpr hmn
  · show tally _ (close w.fds v.notifyfd) (List.map _ (List.filter _ _))+1=_
    rw [hmap]
    have hupd : tally (fun d => d=some (.event 1)) (close w.fds v.notifyfd)
        ((w.blocked.map Waiter.notifyfd).erase v.notifyfd)=_ :=
      tally_update_of_not_mem h.distinct.not_mem_erase
    have herase := tally_erase (p := fun d => d=some (.event 1)) (t := w.fds) hm
    rw [hr] at herase
    rw [hupd]
    simpa [granted] using herase

/-- The invariant of runs in which no wait is resumed before it was granted. -/
def Balanced (value : ℕ) (w : World) : Prop := Tidy w ∧ Conserved value w

/-- A step in which no call returns. -/
theorem Balanced.of_same (h : Balanced value w) (ht : Tidy t) (hl : t.log=w.log)
    (hs : t.sem.semval=w.sem.semval) (hg : granted t=granted w) : Balanced value t := by
  refine ⟨ht,?_⟩
  have hc := h.2
  unfold Conserved acquired released at hc ⊢
  rw [hl,hs,hg]
  exact hc

/-- A step in which a call returns. -/
theorem Balanced.of_reply {r : Reply} (h : Balanced value w) (ht : Tidy t) (hl : t.log=w.log++[r])
    (hs : t.sem.semval+granted t+(if r.acquires then 1 else 0)=
      w.sem.semval+granted w+if r.releases then 1 else 0) : Balanced value t := by
  refine ⟨ht,?_⟩
  have hc := h.2
  unfold Conserved acquired released at hc ⊢
  rw [hl]
  simp only [List.countP_append,List.countP_singleton]
  omega

theorem Balanced.wait {c : ℕ} {context : Context} {timeout fd : ℤ} {allocated : Bool}
    (h : Balanced value w) (hfd : w.fds fd=none)
    (ht : dycoSemaphoreWait w c context timeout fd allocated=.ok t) : Balanced value t := by
  have hw := h.1
  unfold dycoSemaphoreWait at ht
  split_ifs at ht with hpos hzero halloc <;> cases ht
  · refine h.of_reply ⟨hw.counters,hw.distinct,hw.queue,hw.nodes,hw.ids,hw.fresh,hw.tail⟩ rfl ?_
    show w.sem.semval-1+granted w+1=w.sem.semval+granted w+0
    omega
  · exact h.of_reply (hw.reply _) rfl rfl
  · obtain ⟨hq,hg⟩ := hw.enterQueue hfd c (0<timeout)
    refine h.of_same hq rfl ?_ hg
    show (pushNode w.sem _).semval=_
    rw [hw.pushNode]
  · obtain ⟨hq,hg⟩ := hw.elsewhere (d := some (.event 0)) (hw.not_mem (.inl hfd))
    refine h.of_reply (hq.reply _) rfl ?_
    show w.sem.semval+granted {w with fds := Function.update w.fds fd _}+0=_
    rw [hg]
    rfl

/-- A signal that returned 0 went into the counter or to one blocked wait. -/
def SpentOnce (w t : World) : Prop :=
  t.sem.semval=w.sem.semval+1 ∧ t.fds=w.fds ∨
  t.sem.semval=w.sem.semval ∧ ∃ v∈w.blocked,w.fds v.notifyfd=some (.event 0) ∧
    t.fds=Function.update w.fds v.notifyfd (some (.event 1))

/-- What a signal does: it fails, it is counted, or it wakes the first wait. -/
inductive Signalled (w : World) : World → Prop
  | refused : Signalled w (reply w (.signal (-1)))
  | counted (hmax : w.sem.semval≠semValueMax) (hq : w.sem.wqueue=[]) :
      Signalled w (reply {w with sem := {w.sem with semval := w.sem.semval+1}} (.signal 0))
  | woken {head : Node} {rest : List Node} (hq : w.sem.wqueue=head::rest)
      (hm : head.notifyfd∈w.blocked.map Waiter.notifyfd)
      (hc : w.fds head.notifyfd=some (.event 0)) :
      Signalled w (reply {w with
        sem := popNode w.sem head rest
        fds := Function.update w.fds head.notifyfd (some (.event 1))} (.signal 0))

/-- A signal goes through. -/
theorem Tidy.signalled (h : Tidy w) (context : Context) :
    ∃ t,dycoSemaphoreSignal w context=.ok t ∧ Signalled w t := by
  unfold dycoSemaphoreSignal
  by_cases hmax : w.sem.semval=semValueMax
  · rw [if_pos hmax]
    exact ⟨_,rfl,.refused⟩
  rw [if_neg hmax]
  cases hq : w.sem.wqueue with
  | nil => exact ⟨_,rfl,.counted hmax hq⟩
  | cons head rest =>
    dsimp only
    by_cases hout : context=.outside
    · rw [if_pos hout]
      exact ⟨_,rfl,.refused⟩
    obtain ⟨hm,hc⟩ := h.queue head (hq ▸ List.mem_cons_self)
    rw [if_neg hout,eventfdWrite_event hc (by decide),Nat.zero_add]
    exact ⟨_,rfl,.woken hq hm hc⟩

/-- A signal goes through, and its permit is not lost. -/
theorem Balanced.signal (h : Balanced value w) (context : Context) :
    ∃ t ret,dycoSemaphoreSignal w context=.ok t ∧ t.log=w.log++[.signal ret] ∧
      (ret=0 → SpentOnce w t) ∧ Balanced value t := by
  have hw := h.1
  obtain ⟨t,ht,hs⟩ := hw.signalled context
  cases hs with
  | refused => exact ⟨_,-1,ht,rfl,by simp,h.of_reply (hw.reply _) rfl rfl⟩
  | counted _ hq =>
    refine ⟨_,0,ht,rfl,fun _ => .inl ⟨rfl,rfl⟩,h.of_reply
      ⟨hw.counters,hw.distinct,hw.queue,hw.nodes,hw.ids,hw.fresh,hw.tail⟩ rfl ?_⟩
    show w.sem.semval+1+granted w+0=w.sem.semval+granted w+1
    omega
  | @woken head rest hq hm hc =>
    obtain ⟨v,hv,hvfd⟩ := List.mem_map.mp hm
    obtain ⟨hsem,-⟩ := hw.popNode hq
    obtain ⟨htidy,hg⟩ := hw.signal hq
    refine ⟨_,0,ht,rfl,fun _ => .inr ⟨hsem,v,hv,hvfd ▸ hc,by rw [hvfd]; rfl⟩,
      h.of_reply (htidy.reply _) rfl ?_⟩
    show (popNode w.sem head rest).semval+granted _+0=w.sem.semval+granted w+1
    rw [hsem]
    exact congrArg (w.sem.semval+·) hg

theorem Balanced.resume {v : Waiter} (h : Balanced value w) (hv : v∈w.blocked)
    (hr : (eventfdRead w.fds v.notifyfd).isSome) : Balanced value (afterYield w v) := by
  have hone : w.fds v.notifyfd=some (.event 1) := by
    rcases h.1.counters v hv with hc|hc
    · simp [eventfdRead,hc] at hr
    · exact hc
  obtain ⟨ht,hg⟩ := h.1.afterYield hv hone
  have hret := eventfdRead_eq_some hone Nat.one_pos
  refine h.of_reply (r := .wait v.co 0) ht ?_ ?_
  · simp [afterYield,reply,hret]
  · show w.sem.semval+granted (afterYield w v)+1=w.sem.semval+granted w+0
    omega

/-- Every step in which no wait is resumed before it was granted keeps the
balance. -/
theorem Balanced.step (h : Balanced value w) (hc : grantedFirst w a=true)
    (ha : step w a=some (.ok t)) : Balanced value t := by
  cases a with
  | wait c context timeout fd allocated =>
    simp only [Semaphore.step] at ha
    split_ifs at ha with hfd
    exact h.wait hfd.1 (Option.some.inj ha)
  | signal context =>
    obtain ⟨u,-,hu,-,-,hb⟩ := h.signal context
    simp only [Semaphore.step,hu] at ha
    cases ha
    exact hb
  | resume c =>
    simp only [Semaphore.step] at ha
    split at ha
    next v hv =>
      cases ha
      have hco : v.co=c := by simpa using List.find?_some hv
      have hmem := List.mem_of_find?_eq_some hv
      simp only [grantedFirst,List.all_eq_true] at hc
      exact h.resume hmem (by simpa [hco] using hc v hmem)
    · cases ha
  | openOther fd =>
    simp only [Semaphore.step] at ha
    split_ifs at ha with hfd
    cases ha
    obtain ⟨ht,hg⟩ := h.1.elsewhere (d := some .other) (h.1.not_mem (.inl hfd))
    exact h.of_same ht rfl rfl hg
  | closeOther fd =>
    simp only [Semaphore.step] at ha
    split_ifs at ha with hfd
    cases ha
    obtain ⟨ht,hg⟩ := h.1.elsewhere (d := none) (h.1.not_mem (.inr hfd))
    exact h.of_same ht rfl rfl hg

theorem balanced_of_reachable (h : Reachable value (fun w a => grantedFirst w a=true) w) :
    Balanced value w := by
  obtain ⟨sem,hsem,h⟩ := h
  unfold dycoSemaphoreCreate at hsem
  split_ifs at hsem
  cases hsem
  refine h.invariant (Balanced value) ⟨?_,?_⟩ fun _ _ _ hi hc ha => hi.step hc ha
  · constructor <;> simp [newSemaphore]
  · simp [Conserved,newSemaphore,acquired,released,granted,tally]

/-- In every run in which no wait is resumed before it was granted, the counter
and the waits that returned 0 or will do so make up the initial value and the
successful signals; and every signal goes through, a successful one into the
counter or to exactly one wait that is still blocked. -/
theorem permits_conserved (h : Reachable value (fun w a => grantedFirst w a=true) w) :
    w.sem.semval+(acquired w+granted w)=value+released w ∧
    ∀ context,∃ t ret,step w (.signal context)=some (.ok t) ∧ t.log=w.log++[.signal ret] ∧
      (ret=0 → SpentOnce w t) := by
  have hb := balanced_of_reachable h
  refine ⟨(Nat.add_assoc ..).symm.trans hb.2,fun context => ?_⟩
  obtain ⟨t,ret,ht,hl,hs,-⟩ := hb.signal context
  exact ⟨t,ret,congrArg some ht,hl,hs⟩

/-- A wait expires, and the next wait is given the same descriptor, so that it is
queued behind the node that was left. -/
def expiredWait : List Act :=
  [.wait 0 .symmetric 10 5 true,.resume 0,.wait 1 .symmetric (-1) 5 true,.signal .symmetric,
    .signal .symmetric,.resume 1]

/-- Both signals return 0 and reach the same counter, the wait reads 2 and
returns -1, and both permits are lost. -/
theorem expired_wait_spends_permits :
    ∃ w,Reachable 0 (fun w a => genuine w a=true) w ∧
      w.log=[.wait 0 (-1),.signal 0,.signal 0,.wait 1 (-1)] ∧
      w.sem.semval+(acquired w+granted w)≠0+released w := by
  have h : (replayWhile step (fun w a => genuine w a=true) (newSemaphore ⟨0,[],none⟩)
      expiredWait).map (fun w => (w.log,w.sem.semval,acquired w,granted w,released w))=
      some ([.wait 0 (-1),.signal 0,.signal 0,.wait 1 (-1)],0,0,0,2) := by decide +kernel
  obtain ⟨w,hw,hq⟩ := Option.map_eq_some_iff.mp h
  simp only [Prod.mk.injEq] at hq
  obtain ⟨hlog,hval,hacq,hgr,hrel⟩ := hq
  exact ⟨w,⟨_,rfl,runs_of_replayWhile hw⟩,hlog,by omega⟩

/-- Two waits, of which one is granted and resumed, while the other is granted. -/
def grantedInOrder : List Act :=
  [.wait 0 .symmetric 10 5 true,.wait 1 .symmetric (-1) 6 true,.signal .symmetric,.resume 0,
    .signal .symmetric]

theorem permits_conserved_grantedInOrder :
    ∃ w,replayWhile step (fun w a => grantedFirst w a=true) (newSemaphore ⟨0,[],none⟩)
        grantedInOrder=some w ∧
      w.log=[.signal 0,.wait 0 0,.signal 0] ∧ granted w=1 ∧
      w.sem.semval+(acquired w+granted w)=0+released w ∧
      ∀ context,∃ t ret,step w (.signal context)=some (.ok t) ∧ t.log=w.log++[.signal ret] ∧
        (ret=0 → SpentOnce w t) := by
  have h : (replayWhile step (fun w a => grantedFirst w a=true) (newSemaphore ⟨0,[],none⟩)
      grantedInOrder).map (fun w => (w.log,granted w))=
      some ([.signal 0,.wait 0 0,.signal 0],1) := by decide +kernel
  obtain ⟨w,hw,hq⟩ := Option.map_eq_some_iff.mp h
  simp only [Prod.mk.injEq] at hq
  exact ⟨w,hw,hq.1,hq.2,permits_conserved ⟨_,rfl,runs_of_replayWhile hw⟩⟩

end DycoCoroutine.Semaphore
