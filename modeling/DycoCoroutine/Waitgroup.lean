import DycoCoroutine.EventFd
import DycoCoroutine.HashTableMap
import DycoCoroutine.ScheduleState

/-!
# Wait groups

`dyco_waitgroup.c` as a machine of one group, any number of callers and the
descriptor table of the process. The members and the lists of the targets are kept
in hash tables. A blocked wait has an event descriptor of its own and a node in the
list of its target, or in the list of waits for the whole group;
`dyco_waitgroup_done` writes the number of finished members to every node of the
lists it reaches. Nodes are unlinked by the waits themselves. The world remembers
which coroutines were added and which of them have called `dyco_waitgroup_done`.
Asymmetric coroutines, which wait groups do not support, do not wait.
-/

namespace DycoCoroutine.Waitgroup

open ScheduleState RunInvariant EventFd
open HashTable (DycoHtable FiniteMap maxWidth htableInit htableFind htableContains htableInsert
  htableDelete)
open HashTableMap (Represents nonzero)

/-- INT_MAX -/
def intMax : ℕ := 2^31-1

/-- A `dyco_sublist` that is not NULL, by the `notifyfd` of its nodes. -/
structure DycoSublist where
  /-- The first node. -/
  notifyfd : ℤ
  /-- The nodes behind it. -/
  next : List ℤ
  deriving DecidableEq

/-- `struct dyco_waitgroup` -/
structure Group where
  /-- `tot_size` -/
  totSize : ℕ
  /-- `finished` -/
  finished : ℕ
  /-- `cid_set`, whose data are NULL. -/
  cidSet : DycoHtable Unit
  /-- `target_sublist_map` -/
  targetSublistMap : DycoHtable DycoSublist
  /-- `final_sublist` -/
  finalSublist : List ℤ

/-- A call of `dyco_waitgroup_wait` that is blocked in `yield`. -/
structure Waiter where
  /-- The cid of the coroutine. -/
  co : ℤ
  /-- `target` -/
  target : ℤ
  /-- `timeout` -/
  timeout : ℤ
  /-- The descriptor of the call. -/
  notifyfd : ℤ
  /-- When the call was made. -/
  since : ℕ
  deriving DecidableEq

/-- A call that has returned. -/
inductive Reply
  | add (cid : ℤ) (ret : ℤ)
  | done (co : ℤ) (ret : ℤ)
  /-- A wait also records when it was called and when it returned. -/
  | wait (co target timeout ret : ℤ) (since till : ℕ)
  deriving DecidableEq

/-- The group at one time. -/
structure Moment where
  /-- The number of steps taken before. -/
  time : ℕ
  /-- The group. -/
  group : Group
  /-- The coroutines that were added. -/
  members : Finset ℤ
  /-- Those of them that have called `dyco_waitgroup_done` since. -/
  doneBy : Finset ℤ

/-- A group, its callers and the descriptors of the process. -/
structure World where
  /-- The group. -/
  group : Group
  /-- The descriptor table. -/
  fds : Table
  /-- The blocked waits. -/
  blocked : List Waiter
  /-- The calls that have returned, oldest first. -/
  log : List Reply
  /-- The coroutines that were added. -/
  members : Finset ℤ
  /-- Those of them that have called `dyco_waitgroup_done` since. -/
  doneBy : Finset ℤ
  /-- The number of steps taken. -/
  clock : ℕ
  /-- The group before and after every step. -/
  history : List Moment

/-- The list that a wait for this target is linked into. -/
def Group.sublist (g : Group) (target : ℤ) : List ℤ :=
  if target≤0 then g.finalSublist
  else match htableFind g.targetSublistMap target with
    | some pre => pre.notifyfd::pre.next
    | none => []

/-- A new node of the list for the whole group goes behind the first one; a new
node of a target's list becomes the first one. -/
def Group.link (g : Group) (target fd : ℤ) : Group :=
  if target≤0 then
    {g with finalSublist := match g.finalSublist with
      | [] => [fd]
      | head::rest => head::fd::rest}
  else
    let sub : DycoSublist := ⟨fd,g.sublist target⟩
    {g with targetSublistMap := (htableInsert g.targetSublistMap target (some sub)).2}

/-- A resumed wait unlinks the first node with its descriptor. It reads the first
node of the list without looking whether there is one. -/
def Group.unlink (g : Group) (target fd : ℤ) : Except Fault Group :=
  if target≤0 then
    if g.finalSublist=[] then .error .undefined
    else .ok {g with finalSublist := g.finalSublist.erase fd}
  else match htableFind g.targetSublistMap target with
    | none => .error .undefined
    | some pre =>
      if pre.notifyfd=fd then
        match pre.next with
        | ptr::rest => .ok {g with
            targetSublistMap := (htableInsert g.targetSublistMap target (some ⟨ptr,rest⟩)).2}
        | [] => .ok {g with targetSublistMap := (htableDelete g.targetSublistMap target).2.2}
      else
        -- the list that the table points to loses a node further on
        let sub : DycoSublist := {pre with next := pre.next.erase fd}
        .ok {g with targetSublistMap := (htableInsert g.targetSublistMap target (some sub)).2}

/-- `++` on an `int`. -/
def increment (n : ℕ) : Except Fault ℕ := if n < intMax then .ok (n+1) else .error .undefined

/-- `wg_notify` for every node of a list. -/
def wgNotify (t : Table) (sublist : List ℤ) (finishedNum : ℕ) : Except Fault Table :=
  match eventfdWriteEach t sublist finishedNum with
  | some u => .ok u
  | none => .error .must

/-- A call returns. -/
def reply (w : World) (r : Reply) : World := {w with log := w.log++[r]}

/-- `dyco_waitgroup_add` -/
def dycoWaitgroupAdd (w : World) (cid : ℤ) : Except Fault World :=
  let inserted := htableInsert w.group.cidSet cid none
  let w := {w with
    group := {w.group with cidSet := inserted.2}
    members := insert cid w.members}
  if inserted.1≠1 then .ok (reply w (.add cid 0))
  else do
    let totSize ← increment w.group.totSize
    return reply {w with group := {w.group with totSize := totSize}} (.add cid 1)

/-- A member that calls `dyco_waitgroup_done` is recorded. -/
def recordDone (w : World) (c : ℤ) : World :=
  {w with doneBy := if c∈w.members then insert c w.doneBy else w.doneBy}

/-- `dyco_waitgroup_done` -/
def dycoWaitgroupDone (w : World) (c : ℤ) (context : Context) : Except Fault World :=
  if context=.outside then .ok (reply w (.done c (-1)))
  else if htableContains w.group.cidSet c≠1 then .ok (reply (recordDone w c) (.done c 0))
  else do
    let finished ← increment w.group.finished
    let fds ← wgNotify w.fds (w.group.sublist finished) finished
    let fds ← (if finished=w.group.totSize then wgNotify fds w.group.finalSublist finished
      else .ok fds)
    return reply (recordDone {w with
      group := {w.group with finished := finished}
      fds := fds} c) (.done c 1)

/-- A wait opens its descriptor, links its node and suspends. -/
def enterSublist (w : World) (c target timeout fd : ℤ) : World :=
  {w with
    group := w.group.link target fd
    fds := openEvent w.fds fd
    blocked := w.blocked++[⟨c,target,timeout,fd,w.clock⟩]}

/-- `dyco_waitgroup_wait` up to its return or to `yield`, with the descriptor
that `eventfd` returns and the outcome of `malloc`. -/
def dycoWaitgroupWait (w : World) (c : ℤ) (context : Context) (target timeout fd : ℤ)
    (allocated : Bool) : Except Fault World :=
  let answer (ret : ℤ) := reply w (.wait c target timeout ret w.clock w.clock)
  if timeout=0 then .ok (answer w.group.finished)
  else if context=.outside then .ok (answer (-1))
  else if target≤0 ∧ w.group.finished=w.group.totSize then .ok (answer w.group.finished)
  else if 0<target ∧ target≤w.group.finished then .ok (answer target)
  else if allocated then .ok (enterSublist w c target timeout fd)
  else .ok (answer (-1))

/-- The value that a blocked wait returns when it is resumed. -/
def result (w : World) (v : Waiter) : ℤ :=
  match eventfdRead w.fds v.notifyfd with
  | some count => toInt count
  | none => -1

/-- The end of `dyco_waitgroup_wait` after `yield`: the counter is read, and the
node of the call is unlinked. The descriptor is closed with its node. -/
def afterYield (w : World) (v : Waiter) : Except Fault World := do
  let group ← w.group.unlink v.target v.notifyfd
  let found : Bool := v.notifyfd∈w.group.sublist v.target
  return reply {w with
    group := group
    fds := if found then close w.fds v.notifyfd else openEvent w.fds v.notifyfd
    blocked := w.blocked.filter fun u => u.notifyfd≠v.notifyfd}
      (.wait v.co v.target v.timeout (result w v) v.since w.clock)

/-- What can happen next. -/
inductive Act
  /-- `dyco_waitgroup_add` -/
  | add (cid : ℤ)
  /-- `dyco_waitgroup_done` -/
  | done (c : ℤ) (context : Context)
  /-- `dyco_waitgroup_wait` -/
  | wait (c : ℤ) (context : Context) (target timeout fd : ℤ) (allocated : Bool)
  /-- The scheduler resumes a blocked wait. -/
  | resume (c : ℤ)
  /-- The program opens a descriptor of its own. -/
  | openOther (fd : ℤ)
  /-- The program closes a descriptor of its own. -/
  | closeOther (fd : ℤ)

/-- What an action does. A coroutine that is blocked makes no calls, and an asymmetric one
does not wait. -/
def act (w : World) : Act → Option (Except Fault World)
  | .add cid => some (dycoWaitgroupAdd w cid)
  | .done c context =>
    if w.blocked.all fun v => v.co≠c then some (dycoWaitgroupDone w c context) else none
  | .wait c context target timeout fd allocated =>
    if (context≠.asymmetric ∨ timeout=0) ∧ w.fds fd=none ∧ w.blocked.all (fun v => v.co≠c) then
      some (dycoWaitgroupWait w c context target timeout fd allocated)
    else none
  | .resume c => (w.blocked.find? fun v => v.co=c).map (afterYield w)
  | .openOther fd =>
    if w.fds fd=none then some (.ok {w with fds := Function.update w.fds fd (some .other)})
    else none
  | .closeOther fd =>
    if w.fds fd=some .other then some (.ok {w with fds := close w.fds fd}) else none

/-- Time passes, and the group is recorded. -/
def tick (w : World) : World :=
  {w with
    clock := w.clock+1
    history := w.history++[⟨w.clock+1,w.group,w.members,w.doneBy⟩]}

/-- One step of a group and its callers. -/
def step (w : World) (a : Act) : Option (Except Fault World) := (act w a).map (Except.map tick)

/-- The loop of `dyco_waitgroup_create`, from this width on and for at most so many
rounds. -/
def widen (suggestSize : ℕ) : ℕ → ℕ → ℕ
  | 0,width => width
  | rounds+1,width =>
    if suggestSize>>>width≠0 then widen suggestSize rounds (width+1) else width

/-- The width that `dyco_waitgroup_create` chooses. -/
def tableWidth (suggestSize : ℤ) : ℕ :=
  if suggestSize≤0 then 16
  else if 65536<suggestSize then maxWidth
  else widen suggestSize.toNat 17 1

/-- `dyco_waitgroup_create` -/
def dycoWaitgroupCreate (suggestSize : ℤ) : Group :=
  ⟨0,0,htableInit (tableWidth suggestSize),htableInit (tableWidth suggestSize),[]⟩

/-- A new group in a process without descriptors. -/
def newGroup (suggestSize : ℤ) : World :=
  ⟨dycoWaitgroupCreate suggestSize,fun _ => none,[],[],∅,∅,0,
    [⟨0,dycoWaitgroupCreate suggestSize,∅,∅⟩]⟩

/-- A member that has called `dyco_waitgroup_done` does not call it again. -/
def doneOnce (w : World) : Act → Bool
  | .done c context => context=.outside || c∉w.members || c∉w.doneBy
  | _ => true

/-- The hash table can tell the members: -1, which marks an empty slot, and 0, which a
resize leaves in the new slots, are not added, 0 does not call `dyco_waitgroup_done`,
and where an addition asks for a larger table, there is one. -/
def distinguished (w : World) : Act → Bool
  | .add cid => cid≠0 && cid≠-1 &&
    (!HashTable.resizes w.group.cidSet (.insert cid none) || w.group.cidSet.width < maxWidth)
  | .done c context => context=.outside || c≠0
  | _ => true

/-- A blocked wait is resumed because its counter was written to or its timer has
expired. -/
def genuine (w : World) : Act → Bool
  | .resume c =>
    w.blocked.any fun v => v.co=c && (0<v.timeout || (eventfdRead w.fds v.notifyfd).isSome)
  | _ => true

/-- The loop of `dyco_waitgroup_create` ends because its condition fails, not for want of
rounds. -/
theorem widen_shiftRight {n rounds width : ℕ} (h : n<2^(width+rounds)) :
    n>>>widen n rounds width=0 := by
  induction rounds generalizing width with
  | zero => exact Nat.shiftRight_eq_zero n _ h
  | succ rounds ih =>
    rw [widen]
    split_ifs with hzero
    · exact ih (by rw [Nat.add_right_comm]; exact h)
    · exact not_not.mp hzero

/-- The chosen width is enough for the suggested size. -/
theorem shiftRight_tableWidth {suggestSize : ℤ} (hpos : 0<suggestSize)
    (hsize : suggestSize≤65536) : suggestSize.toNat>>>tableWidth suggestSize=0 := by
  rw [tableWidth,if_neg (by omega),if_neg (by omega)]
  exact widen_shiftRight (by norm_num; omega)

section Sublists

variable {g u : Group} {T T' fd x : ℤ}

/-- All waits for the whole group share one list. -/
theorem sublist_congr (h : max T 0=max T' 0) : g.sublist T=g.sublist T' := by
  unfold Group.sublist
  split_ifs with h₁ h₂ h₂
  · rfl
  · omega
  · omega
  · have ht : T=T' := by omega
    rw [ht]

/-- The lists of the targets are those that were entered in the table. -/
def Group.Mapped (g : Group) : Prop := ∃ m : FiniteMap DycoSublist,
  Represents nonzero g.targetSublistMap m

theorem sublist_of_pos (hT : 0<T) : g.sublist T=
    match htableFind g.targetSublistMap T with
    | some pre => pre.notifyfd::pre.next
    | none => [] := if_neg (by omega)

/-- The group with an entry for a target. -/
theorem Group.Mapped.insert (h : g.Mapped) (hT : 0<T) (sub : DycoSublist)
    (hmap : u.targetSublistMap=(htableInsert g.targetSublistMap T (some sub)).2)
    (hfinal : u.finalSublist=g.finalSublist) :
    u.Mapped ∧ u.sublist T=sub.notifyfd::sub.next ∧
      ∀ T',max T' 0≠max T 0 → u.sublist T'=g.sublist T' := by
  obtain ⟨m,hrep⟩ := h
  have hp : ∀ x : ℤ,0<x → nonzero x=true := fun x hx => decide_eq_true hx.ne'
  have hrep' := hrep.insert (hp T hT) (by omega) rfl (some sub)
  rw [← hmap] at hrep'
  refine ⟨⟨_,hrep'⟩,?_,fun T' hne => ?_⟩
  · rw [sublist_of_pos hT,hrep'.find (hp T hT),AList.lookup_insert]
    rfl
  · by_cases hpos : 0<T'
    · rw [sublist_of_pos hpos,sublist_of_pos hpos,hrep'.find (hp T' hpos),hrep.find (hp T' hpos),
        AList.lookup_insert_ne (by omega)]
    · rw [Group.sublist,Group.sublist,if_pos (by omega),if_pos (by omega),hfinal]

/-- The group without the entry of a target. -/
theorem Group.Mapped.delete (h : g.Mapped) (hT : 0<T)
    (hmap : u.targetSublistMap=(htableDelete g.targetSublistMap T).2.2)
    (hfinal : u.finalSublist=g.finalSublist) :
    u.Mapped ∧ u.sublist T=[] ∧ ∀ T',max T' 0≠max T 0 → u.sublist T'=g.sublist T' := by
  obtain ⟨m,hrep⟩ := h
  have hp : ∀ x : ℤ,0<x → nonzero x=true := fun x hx => decide_eq_true hx.ne'
  have hrep' := hrep.delete (hp T hT)
  rw [← hmap] at hrep'
  refine ⟨⟨_,hrep'⟩,?_,fun T' hne => ?_⟩
  · rw [sublist_of_pos hT,hrep'.find (hp T hT),AList.lookup_erase]
    rfl
  · by_cases hpos : 0<T'
    · rw [sublist_of_pos hpos,sublist_of_pos hpos,hrep'.find (hp T' hpos),hrep.find (hp T' hpos),
        AList.lookup_erase_ne (by omega)]
    · rw [Group.sublist,Group.sublist,if_pos (by omega),if_pos (by omega),hfinal]

/-- One list of a group has changed, and nothing else. -/
structure Relisted (g : Group) (T : ℤ) (l : List ℤ) (u : Group) : Prop where
  mapped : u.Mapped
  /-- The list. -/
  self : u.sublist T=l
  /-- The other lists. -/
  others : ∀ T',max T' 0≠max T 0 → u.sublist T'=g.sublist T'
  totSize : u.totSize=g.totSize
  finished : u.finished=g.finished
  cidSet : u.cidSet=g.cidSet

/-- The list for the whole group has changed. -/
theorem Group.Mapped.final (h : g.Mapped) (hT : T≤0) (l : List ℤ) :
    Relisted g T l {g with finalSublist := l} := by
  refine ⟨h,if_pos hT,fun T' hne => ?_,rfl,rfl,rfl⟩
  rw [sublist_of_pos (by omega),sublist_of_pos (by omega)]

/-- The new node of a wait is one more node of its list. -/
theorem Group.Mapped.link (h : g.Mapped) (T fd : ℤ) :
    ∃ l,l.Perm (fd::g.sublist T) ∧ Relisted g T l (g.link T fd) := by
  by_cases hT : T≤0
  · have hl : g.sublist T=g.finalSublist := if_pos hT
    rw [hl,Group.link,if_pos hT]
    refine ⟨_,?_,h.final hT _⟩
    cases g.finalSublist with
    | nil => exact .refl _
    | cons head rest => exact .swap ..
  · rw [Group.link,if_neg hT]
    obtain ⟨hm,hself,hothers⟩ := h.insert (u := {g with
      targetSublistMap := (htableInsert g.targetSublistMap T (some ⟨fd,g.sublist T⟩)).2})
      (by omega) ⟨fd,g.sublist T⟩ rfl rfl
    exact ⟨_,.refl _,hm,hself,hothers,rfl,rfl,rfl⟩

/-- A wait whose list is not empty unlinks its node. -/
theorem Group.Mapped.unlink (h : g.Mapped) (hne : g.sublist T≠[]) (fd : ℤ) :
    ∃ u,g.unlink T fd=.ok u ∧ Relisted g T ((g.sublist T).erase fd) u := by
  unfold Group.unlink
  by_cases hT : T≤0
  · have hl : g.sublist T=g.finalSublist := if_pos hT
    rw [hl] at hne ⊢
    rw [if_pos hT,if_neg hne]
    exact ⟨_,rfl,h.final hT _⟩
  have hpos : 0<T := by omega
  rw [if_neg hT]
  rw [sublist_of_pos hpos] at hne ⊢
  cases hfind : htableFind g.targetSublistMap T with
  | none => simp [hfind] at hne
  | some pre =>
    dsimp only
    by_cases hhead : pre.notifyfd=fd
    · rw [if_pos hhead,hhead,List.erase_cons_head]
      cases hnext : pre.next with
      | nil =>
        refine ⟨_,rfl,?_⟩
        obtain ⟨hm,hself,hothers⟩ := h.delete (u := {g with
          targetSublistMap := (htableDelete g.targetSublistMap T).2.2}) hpos rfl rfl
        exact ⟨hm,hself,hothers,rfl,rfl,rfl⟩
      | cons ptr rest =>
        refine ⟨_,rfl,?_⟩
        obtain ⟨hm,hself,hothers⟩ := h.insert (u := {g with
          targetSublistMap := (htableInsert g.targetSublistMap T (some ⟨ptr,rest⟩)).2})
          hpos ⟨ptr,rest⟩ rfl rfl
        exact ⟨hm,hself,hothers,rfl,rfl,rfl⟩
    · rw [if_neg hhead,List.erase_cons_tail (by simpa using hhead)]
      refine ⟨_,rfl,?_⟩
      obtain ⟨hm,hself,hothers⟩ := h.insert (u := {g with targetSublistMap :=
        (htableInsert g.targetSublistMap T (some {pre with next := pre.next.erase fd})).2})
        hpos {pre with next := pre.next.erase fd} rfl rfl
      exact ⟨hm,hself,hothers,rfl,rfl,rfl⟩

end Sublists

variable {w t u : World} {a : Act} {v : Waiter}

/-- What a call that does not block may return, other than a failure. -/
def Prompt (w : World) : Reply → Prop
  | .wait _ target timeout ret since till => since=w.clock ∧ till=w.clock ∧
      (timeout≠0 → ret≠-1 → (target≤0 → w.group.finished=w.group.totSize ∧ ret=w.group.finished) ∧
        (0<target → ret=target))
  | _ => True

/-- A counted `dyco_waitgroup_done` has written to the lists it reaches. -/
def Notified (w : World) (u : Table) : Prop :=
  ∃ u₁,eventfdWriteEach w.fds (w.group.sublist (w.group.finished+1)) (w.group.finished+1)=some u₁ ∧
    if w.group.finished+1=w.group.totSize then
      eventfdWriteEach u₁ (w.group.sublist 0) (w.group.finished+1)=some u
    else u=u₁

/-- The table after an addition. -/
def admitted (w : World) (cid : ℤ) : World :=
  {w with
    group := {w.group with cidSet := (htableInsert w.group.cidSet cid none).2}
    members := insert cid w.members}

/-- What a step can do, up to the passing of time. -/
inductive Effect (w : World) : Act → World → Prop
  /-- A call returns at once. -/
  | answered {a : Act} {r : Reply} (hr : Prompt w r) : Effect w a (reply w r)
  /-- The table has the coroutine already, or cannot take it. -/
  | renewed {cid : ℤ} (hret : (htableInsert w.group.cidSet cid none).1≠1) :
      Effect w (.add cid) (reply (admitted w cid) (.add cid 0))
  /-- A member is added. -/
  | joined {cid : ℤ} (hret : (htableInsert w.group.cidSet cid none).1=1) :
      Effect w (.add cid) (reply {admitted w cid with group := {(admitted w cid).group with
        totSize := w.group.totSize+1}} (.add cid 1))
  /-- The table does not have the caller. -/
  | ignored {c : ℤ} {context : Context} (hcontext : context≠.outside)
      (hc : htableContains w.group.cidSet c≠1) :
      Effect w (.done c context) (reply (recordDone w c) (.done c 0))
  /-- A member is counted. -/
  | counted {c : ℤ} {context : Context} {fds : Table} (hcontext : context≠.outside)
      (hc : htableContains w.group.cidSet c=1) (hlt : w.group.finished < intMax)
      (hu : Notified w fds) :
      Effect w (.done c context) (reply (recordDone {w with
        group := {w.group with finished := w.group.finished+1}
        fds := fds} c) (.done c 1))
  /-- A wait blocks. -/
  | entered {c target timeout fd : ℤ} {context : Context} {allocated : Bool} (hfd : w.fds fd=none)
      (hc : c∉w.blocked.map Waiter.co) (hgroup : target≤0 → w.group.finished≠w.group.totSize)
      (htarget : 0<target → (w.group.finished : ℤ)<target) :
      Effect w (.wait c context target timeout fd allocated) (enterSublist w c target timeout fd)
  /-- A blocked wait returns. -/
  | left {c : ℤ} {t : World} {v : Waiter} (hv : v∈w.blocked) (hc : v.co=c)
      (ht : afterYield w v=.ok t) : Effect w (.resume c) t
  /-- A descriptor of the program changes. -/
  | elsewhere {a : Act} {fd : ℤ} {d : Option Desc} (hfd : w.fds fd=none ∨ w.fds fd=some .other) :
      Effect w a {w with fds := Function.update w.fds fd d}

/-- An `int` that was incremented. -/
theorem increment_ok {n m : ℕ} (h : increment n=.ok m) : n < intMax ∧ m=n+1 := by
  unfold increment at h
  split_ifs at h with hn
  cases h
  exact ⟨hn,rfl⟩

/-- Notifications that all went through. -/
theorem wgNotify_ok {t u : Table} {l : List ℤ} {n : ℕ} (h : wgNotify t l n=.ok u) :
    eventfdWriteEach t l n=some u := by
  unfold wgNotify at h
  split at h
  · cases h
    assumption
  · cases h

/-- What an addition does. -/
theorem dycoWaitgroupAdd_effect {cid : ℤ} (h : dycoWaitgroupAdd w cid=.ok t) :
    Effect w (.add cid) t := by
  unfold dycoWaitgroupAdd at h
  dsimp only at h
  split_ifs at h with hret
  · cases h
    exact .renewed hret
  · obtain ⟨n,hn,h⟩ := bind_eq_ok h
    obtain ⟨-,rfl⟩ := increment_ok hn
    cases h
    exact .joined (not_not.mp hret)

/-- What a call of `dyco_waitgroup_done` does. -/
theorem dycoWaitgroupDone_effect {c : ℤ} {context : Context}
    (h : dycoWaitgroupDone w c context=.ok t) : Effect w (.done c context) t := by
  unfold dycoWaitgroupDone at h
  split at h
  · cases h
    exact .answered trivial
  next hcontext =>
  split at h
  next hc =>
    cases h
    exact .ignored hcontext hc
  next hc =>
    obtain ⟨n,hn,h⟩ := bind_eq_ok h
    obtain ⟨hlt,rfl⟩ := increment_ok hn
    obtain ⟨u₁,h₁,h⟩ := bind_eq_ok h
    obtain ⟨u,h₂,h⟩ := bind_eq_ok h
    cases h
    refine .counted hcontext (not_not.mp hc) hlt ⟨u₁,?_,?_⟩
    · rw [← Nat.cast_succ]
      exact wgNotify_ok h₁
    · split_ifs at h₂ ⊢ with hall
      · exact wgNotify_ok h₂
      · cases h₂
        rfl

/-- What a wait does up to its return or to `yield`. -/
theorem dycoWaitgroupWait_effect {c target timeout fd : ℤ} {context : Context} {allocated : Bool}
    (hfd : w.fds fd=none) (hc : c∉w.blocked.map Waiter.co)
    (h : dycoWaitgroupWait w c context target timeout fd allocated=.ok t) :
    Effect w (.wait c context target timeout fd allocated) t := by
  unfold dycoWaitgroupWait at h
  split_ifs at h with htimeout hout hall hready halloc <;> cases h
  · exact .answered ⟨rfl,rfl,fun hne => absurd htimeout hne⟩
  · exact .answered ⟨rfl,rfl,fun _ hret => absurd rfl hret⟩
  · exact .answered ⟨rfl,rfl,fun _ _ => ⟨fun _ => ⟨hall.2,rfl⟩,fun hpos => by omega⟩⟩
  · exact .answered ⟨rfl,rfl,fun _ _ => ⟨fun hneg => by omega,fun _ => rfl⟩⟩
  · exact .entered hfd hc (fun hneg he => hall ⟨hneg,he⟩) fun hpos => by omega
  · exact .answered ⟨rfl,rfl,fun _ hret => absurd rfl hret⟩

/-- Every step that does not fault is one of these, and time passes. -/
theorem step_effect (h : step w a=some (.ok t)) : ∃ u,Effect w a u ∧ t=tick u := by
  obtain ⟨r,hr,he⟩ := Option.map_eq_some_iff.mp h
  cases r with
  | error e => cases he
  | ok u =>
    cases he
    refine ⟨u,?_,rfl⟩
    cases a with
    | add cid => exact dycoWaitgroupAdd_effect (Option.some.inj hr)
    | done c context =>
      simp only [act] at hr
      split_ifs at hr
      exact dycoWaitgroupDone_effect (Option.some.inj hr)
    | wait c context target timeout fd allocated =>
      simp only [act] at hr
      split_ifs at hr with hfree
      refine dycoWaitgroupWait_effect hfree.2.1 (fun hm => ?_) (Option.some.inj hr)
      obtain ⟨v,hv,he⟩ := List.mem_map.mp hm
      exact absurd he (by simpa using List.all_eq_true.mp hfree.2.2 v hv)
    | resume c =>
      obtain ⟨v,hv,ht⟩ := Option.map_eq_some_iff.mp hr
      exact .left (List.mem_of_find?_eq_some hv) (by simpa using List.find?_some hv) ht
    | openOther fd =>
      simp only [act] at hr
      split_ifs at hr with hfd
      cases hr
      exact .elsewhere (.inl hfd)
    | closeOther fd =>
      simp only [act] at hr
      split_ifs at hr with hfd
      cases hr
      exact .elsewhere (.inr hfd)

end DycoCoroutine.Waitgroup
