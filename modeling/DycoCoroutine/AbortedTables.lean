import DycoCoroutine.AbortRelease
import DycoCoroutine.KillRemoval

/-!
# The bucket arrays of an aborted scheduler

`schedule_abort` frees the bucket array of `cid_co_map` and leaves the pointer to it in
place. Here the two tables of a scheduler are followed together with their arrays: an
array is handed out by `calloc`, replaced by `htable_resize` and freed by `htable_clear`
or `htable_clear_with_freecb`, and to use or free one that was freed is a failure of its
own. What the calls do to `cid_co_map` is taken from the registry of coroutines.
-/

namespace DycoCoroutine.AbortedTables

open ScheduleState RunInvariant KeyedEntries ChainedTable CoroutineRegistry
open HashTable (slot)
open CoroutinePool (newRecord)

/-- How an operation fails. -/
inductive Failure
  /-- A bucket array is read, written or freed after it was freed. -/
  | released
  /-- Anything else that ends the process. -/
  | fault (f : Fault)
  deriving DecidableEq

/-- The memory of the bucket arrays. -/
structure Arrays where
  /-- The next array that `calloc` hands out. -/
  fresh : ℕ
  /-- The arrays that were freed, the last one first. -/
  freed : List ℕ

/-- `free` of an array. -/
def Arrays.free (m : Arrays) (array : ℕ) : Except Failure Arrays :=
  if array∈m.freed then .error .released else .ok {m with freed := array::m.freed}

/-- The array of a table after an operation. Only `htable_resize` changes the width, and
it frees the old array for a new one. -/
def Arrays.settle (m : Arrays) (array : ℕ) (old new : Table Co) : Except Failure (ℕ×Arrays) :=
  if new.width=old.width then .ok (array,m)
  else (m.free array).map fun m => (m.fresh,{m with fresh := m.fresh+1})

/-- A scheduler, as far as its tables go. -/
structure World where
  /-- The coroutines, the pools and `cid_co_map`. -/
  reg : Registry
  /-- `fd_co_map` -/
  fdCoMap : Table Co
  /-- `status` -/
  status : SchedStatus
  /-- `cid_co_map.table` -/
  cidArray : ℕ
  /-- `fd_co_map.table` -/
  fdArray : ℕ
  /-- The memory of both. -/
  arrays : Arrays
  /-- `dyco_schedule_free` has run, and `get_sched` returns NULL. -/
  gone : Bool

/-- `dyco_schedule_create`: `htable_init` has allocated two arrays. -/
def dycoScheduleCreate (schedId : ℕ) : World :=
  ⟨newScheduler schedId,htableInit 0,.ready,1,0,⟨2,[]⟩,false⟩

/-- Any other failure. -/
def lift {α : Type*} (r : Except Fault α) : Except Failure α := r.mapError .fault

/-- One round of the loop of `htable_clear` over the slots: the chain of a slot that is
not empty is freed. -/
def clearNodes (table : ℕ → Slot Co) (heap : List ℕ) (i : ℕ) : Except Fault (List ℕ) :=
  if (table i).id=-1 then .ok heap else (table i).addrs.foldlM release heap

/-- `htable_clear` on a table with this array. -/
def htableClear (m : Arrays) (array : ℕ) (ht : Table Co) : Except Failure (Arrays×Table Co) :=
  if array∈m.freed then .error .released
  else do
    let heap ← lift ((List.range (ht.mask+1)).foldlM (clearNodes ht.table) ht.heap)
    let m ← m.free array
    .ok (m,{ht with width := 0,mask := 0,count := 0,heap := heap})

/-- `dyco_schedule_free` -/
def dycoScheduleFree (w : World) : Except Failure World := do
  let (m,fdCoMap) ← htableClear w.arrays w.fdArray w.fdCoMap
  let (m,cidCoMap) ← htableClear m w.cidArray w.reg.cidCoMap
  .ok {w with reg := setMap w.reg cidCoMap,fdCoMap := fdCoMap,arrays := m,gone := true}

/-- The entry of `dyco_schedule_run`: it returns -2 if the scheduler was aborted and 0 if
it is done. -/
def dycoScheduleRun (w : World) : Except Failure World :=
  match w.status with
  | .running => .error (.fault .must)
  | .aborted => .ok w
  | .done => .ok w
  | _ => .ok {w with status := .running}

/-- `schedule_abort` -/
def scheduleAbort (w : World) : Except Failure World := do
  let reg ← lift (CoroutineRegistry.scheduleAbort w.reg)
  let m ← w.arrays.free w.cidArray
  .ok {w with reg := reg,arrays := m,status := .aborted}

/-- `cid_co_map` is as an operation has left it. -/
def putReg (w : World) (reg : Registry) : Except Failure World :=
  (w.arrays.settle w.cidArray w.reg.cidCoMap reg.cidCoMap).map fun r =>
    {w with reg := reg,cidArray := r.1,arrays := r.2}

/-- `fd_co_map` is as an operation has left it. -/
def putFd (w : World) (fdCoMap : Table Co) : Except Failure World :=
  (w.arrays.settle w.fdArray w.fdCoMap fdCoMap).map fun r =>
    {w with fdCoMap := fdCoMap,fdArray := r.1,arrays := r.2}

/-- What can happen next. -/
inductive Act
  /-- A coroutine is created, obtained or released, or a pool is created. -/
  | call (a : CoroutineRegistry.Act)
  /-- The end of `resume` for a killed coroutine. -/
  | kill (c : Co)
  /-- A function that looks a cid up. -/
  | lookup (cid : ℤ)
  /-- `schedule_sched_wait` -/
  | wait (c : Co) (fd : ℤ)
  /-- `schedule_cancel_wait` of a coroutine that waits. -/
  | cancelWait (fd : ℤ)
  /-- `schedule_get_waitco` for a descriptor that is reported. -/
  | event (fd : ℤ)
  /-- `dyco_schedule_run` is called. -/
  | run
  /-- The loop of `dyco_schedule_run` is over. -/
  | finish
  /-- `schedule_stop` -/
  | stop
  /-- `schedule_abort`, called by the coroutine `c`. -/
  | abort (c : Co)
  /-- `dyco_schedule_free` -/
  | free

/-- What happens inside `dyco_schedule_run` only. -/
def inside : Act → Bool
  | .call (.exit _) => true
  | .kill _ => true
  | .wait _ _ => true
  | .cancelWait _ => true
  | .event _ => true
  | .finish => true
  | .stop => true
  | .abort _ => true
  | _ => false

/-- Whether a call of the registry reaches `cid_co_map`. `cp_obtain` does not if no
coroutine is available, and `cp_return` not without a pool. -/
def reachesMap (s : Registry) : CoroutineRegistry.Act → Bool
  | .poolCreate _ _ _ => false
  | .obtain p isasymmetric => registers s (.obtain p isasymmetric)
  | .exit c => !((s.co c).flagsIncoropool && (s.co c).cpool.isNone)
  | _ => true

/-- What reads `cid_co_map` before it does anything else to a table. -/
def readsCids (w : World) : Act → Bool
  | .call a => reachesMap w.reg a
  | .kill _ => true
  | .lookup _ => true
  | .abort _ => true
  | _ => false

/-- What uses `cid_co_map`. -/
def usesCids (w : World) : Act → Bool
  | .free => true
  | a => readsCids w a

/-- The status after a call: a new symmetric coroutine revives a scheduler that is
done. -/
def revived (w : World) : CoroutineRegistry.Act → SchedStatus
  | .create false => if w.status=.done then .ready else w.status
  | .obtain p false =>
    if w.status=.done ∧ registers w.reg (.obtain p false)=true then .ready else w.status
  | _ => w.status

/-- A symmetric coroutine that can run. -/
def runs (w : World) (c : Co) : Bool :=
  (w.reg.co c).life=.live && !(w.reg.co c).flagsAsymmetric

/-- A step whose arrays are there. -/
def proceed (w : World) : Act → Option (Except Failure World)
  | .call a => (CoroutineRegistry.step w.reg a).map fun r => do
    let v ← lift r >>= putReg w
    .ok {v with status := revived w a}
  | .kill c => if runs w c then some (lift (resumeKilled w.reg c) >>= putReg w) else none
  | .lookup cid => some ((lift (htableFind w.reg.cidCoMap cid)).map fun _ => w)
  | .wait c fd =>
    if runs w c then some (lift (htableInsert w.fdCoMap fd (some c)) >>= fun r => putFd w r.2)
    else none
  | .cancelWait fd => some (lift (htableDelete w.fdCoMap fd) >>= fun r => putFd w r.2)
  | .event fd => some ((lift (htableFind w.fdCoMap fd)).map fun _ => w)
  | .run => some (dycoScheduleRun w)
  | .finish => some (.ok {w with status := .done})
  | .stop => some (.ok {w with status := .stopped})
  | .abort c => if runs w c then some (scheduleAbort w) else none
  | .free => if w.status=.running then none else some (dycoScheduleFree w)

/-- One step. -/
def step (w : World) (a : Act) : Option (Except Failure World) :=
  if w.gone then match a with
    | .run => some (.ok w)
    | .lookup _ => some (.ok w)
    | _ => none
  else if inside a=true ∧ w.status≠.running then none
  else if readsCids w a=true ∧ w.cidArray∈w.arrays.freed then some (.error .released)
  else proceed w a

/-- The states of a scheduler. -/
def Reachable (w : World) : Prop :=
  ∃ schedId,Runs step (fun _ _ => True) (dycoScheduleCreate schedId) w

variable {w v : World} {a : Act} {m : Arrays} {array : ℕ} {held : Multiset ℕ} {c : Co}
  {ht : Table Co} {leak : Multiset ℕ} {s t : Registry}

/-! ## The ledger of the arrays -/

/-- Every array was freed once or is one of `held`. -/
def Ledger (m : Arrays) (held : Multiset ℕ) : Prop :=
  (m.freed : Multiset ℕ)+held=Multiset.range m.fresh

/-- No array is freed twice or both freed and held. -/
theorem Ledger.nodup (h : Ledger m held) : ((m.freed : Multiset ℕ)+held).Nodup := by
  rw [show _=_ from h]
  exact Multiset.nodup_range _

/-- A held array has been allocated. -/
theorem Ledger.lt (h : Ledger m held) (ha : array∈held) : array < m.fresh := by
  have hmem : array∈(m.freed : Multiset ℕ)+held := Multiset.mem_add.mpr (.inr ha)
  rw [show _=_ from h] at hmem
  exact Multiset.mem_range.mp hmem

/-- If nothing is held, every array was freed once. -/
theorem Ledger.count_freed (h : Ledger m 0) (ha : array < m.fresh) : m.freed.count array=1 := by
  have hall : (m.freed : Multiset ℕ)=Multiset.range m.fresh := (add_zero _).symm.trans h
  rw [← Multiset.coe_count,hall]
  exact Multiset.count_eq_one_of_mem (Multiset.nodup_range _) (Multiset.mem_range.mpr ha)

/-- An array that is held can be freed. -/
theorem Ledger.free (h : Ledger m (array ::ₘ held)) :
    m.free array=.ok {m with freed := array::m.freed} ∧
      Ledger {m with freed := array::m.freed} held := by
  have hnodup := h.nodup
  rw [Multiset.add_cons,Multiset.nodup_cons] at hnodup
  have hnot : array∉m.freed := fun ha => hnodup.1 (Multiset.mem_add.mpr (.inl ha))
  refine ⟨if_neg hnot,?_⟩
  unfold Ledger at h ⊢
  rw [Multiset.add_cons] at h
  rw [← Multiset.cons_coe,Multiset.cons_add]
  exact h

/-- A table with an array that is held has one after every operation. -/
theorem Ledger.settle (h : Ledger m (array ::ₘ held)) (old new : Table Co) :
    ∃ array' m',m.settle array old new=.ok (array',m') ∧ Ledger m' (array' ::ₘ held) ∧
      m.fresh ≤ m'.fresh := by
  unfold Arrays.settle
  split_ifs
  · exact ⟨array,m,rfl,h,le_rfl⟩
  · obtain ⟨hfree,hledger⟩ := h.free
    rw [hfree]
    refine ⟨_,_,rfl,?_,Nat.le_succ _⟩
    unfold Ledger at hledger ⊢
    rw [Multiset.add_cons,Multiset.range_succ]
    exact congrArg _ hledger

/-! ## Clearing a table -/

/-- Nodes that are allocated and all different can be freed one after the other. -/
theorem foldlM_release {l heap : List ℕ} (hl : l.Nodup) (hheap : ∀ p∈l,p∈heap) :
    ∃ heap',l.foldlM release heap=.ok heap' ∧ ∀ p∈heap,p∉l → p∈heap' := by
  induction l generalizing heap with
  | nil => exact ⟨heap,rfl,fun p hp _ => hp⟩
  | cons p l ih =>
    obtain ⟨hp,hl⟩ := List.nodup_cons.mp hl
    have hrest : ∀ q∈l,q∈heap.erase p := fun q hq =>
      (List.mem_erase_of_ne (ne_of_mem_of_not_mem hq hp)).mpr (hheap q (List.mem_cons_of_mem _ hq))
    obtain ⟨heap',hfold,hkept⟩ := ih hl hrest
    refine ⟨heap',?_,fun q hq hnot => ?_⟩
    · rw [List.foldlM_cons,release_of_mem (hheap p List.mem_cons_self)]
      exact hfold
    · obtain ⟨hqp,hql⟩ := not_or.mp (mt List.mem_cons.mpr hnot)
      exact hkept q ((List.mem_erase_of_ne hqp).mpr hq) hql

/-- The loop of `htable_clear` frees nodes that are allocated, each once. -/
theorem clear_rounds {table : ℕ → Slot Co} {rounds heap : List ℕ}
    (hrounds : (rounds.flatMap fun i => (table i).addrs).Nodup)
    (hheap : ∀ p∈rounds.flatMap fun i => (table i).addrs,p∈heap) :
    ∃ heap',rounds.foldlM (clearNodes table) heap=.ok heap' := by
  induction rounds generalizing heap with
  | nil => exact ⟨heap,rfl⟩
  | cons i rounds ih =>
    rw [List.flatMap_cons] at hrounds hheap
    obtain ⟨hi,hrest,hdisjoint⟩ := List.nodup_append.mp hrounds
    obtain ⟨heap₁,hround,hkept⟩ : ∃ heap₁,clearNodes table heap i=.ok heap₁ ∧
        ∀ p∈heap,p∉(table i).addrs → p∈heap₁ := by
      unfold clearNodes
      split_ifs
      · exact ⟨heap,rfl,fun p hp _ => hp⟩
      · exact foldlM_release hi fun p hp => hheap p (List.mem_append_left _ hp)
    obtain ⟨heap',hfold⟩ := ih hrest fun p hp => hkept p (hheap p (List.mem_append_right _ hp))
      fun hpi => hdisjoint p hpi p hp rfl
    refine ⟨heap',?_⟩
    rw [List.foldlM_cons,hround]
    exact hfold

/-- `htable_clear` on a table whose array is held frees it. -/
theorem htableClear_spec (h : Ledger m (array ::ₘ held)) (hl : Linked leak ht) :
    ∃ ht',htableClear m array ht=.ok ({m with freed := array::m.freed},ht') := by
  obtain ⟨hfree,-⟩ := h.free
  have hnot : array∉m.freed := by
    intro ha
    have hfault : m.free array=.error .released := if_pos ha
    cases hfault.symm.trans hfree
  have hsub : (addrs ht : Multiset ℕ) ≤ ht.heap := hl.nodes ▸ Multiset.le_add_right ..
  have hheap : ∀ p∈addrs ht,p∈ht.heap := fun p hp => Multiset.mem_of_le hsub hp
  have hnodup : (addrs ht).Nodup := Multiset.coe_nodup.mp
    (Multiset.nodup_of_le hsub (Multiset.coe_nodup.mpr hl.distinct))
  obtain ⟨heap,hrounds⟩ := clear_rounds hnodup hheap
  refine ⟨{ht with width := 0,mask := 0,count := 0,heap := heap},?_⟩
  rw [htableClear,if_neg hnot,hrounds,hfree]
  rfl

/-! ## What the operations keep of the registry -/

/-- `coro_abort` leaves the nodes of the table as `htable_delete` does. -/
theorem linked_of_freecb {data : Option Co} (hl : Linked leak s.cidCoMap)
    (h : freecb s data=.ok t) : Linked leak t.cidCoMap ∧ t.cidCoMap.mask=s.cidCoMap.mask := by
  unfold freecb at h
  split_ifs at h
  · cases h
    exact ⟨hl,rfl⟩
  cases data with
  | none => cases h
  | some c =>
    obtain ⟨d,hd⟩ := released_of_endCoro (show endCoro _ c=.ok t from h)
    rcases released_unregister hd with rfl|⟨life,u,pools,-,hu,rfl⟩
    · exact ⟨hl,rfl⟩
    · obtain ⟨-,ret,map,hmap,rfl⟩ := unregister_ok hu
      obtain ⟨hlinked,hmask,-⟩ := hl.of_htableDelete hmap
      exact ⟨hlinked,hmask⟩

/-- The callback keeps the registry sane. -/
theorem sane_of_freecb {data : Option Co} (hs : Sane s) (h : freecb s data=.ok t) : Sane t := by
  unfold freecb at h
  split_ifs at h
  · cases h
    exact hs
  cases data with
  | none => cases h
  | some c =>
    have hsame : Sane {s with aborted := s.aborted++[c]} := hs.recount rfl rfl rfl hs.linked
    obtain ⟨d,hd⟩ := released_of_endCoro (show endCoro _ c=.ok t from h)
    exact hsame.released hd

/-- A pointer that can be followed leads into the chain. -/
theorem deref_ok {idx p : ℕ} {n : Node Co} {rest : List (Node Co)}
    (h : deref ht idx p=.ok (n,rest)) : ∃ front,(ht.table idx).next=front++n::rest := by
  unfold deref at h
  split_ifs at h
  split at h
  next m l hdrop =>
    cases h
    refine ⟨(ht.table idx).next.takeWhile fun n => n.addr≠p,?_⟩
    rw [← hdrop,List.takeWhile_append_dropWhile]
  · cases h

/-- The end of a deletion keeps the registry sane. -/
theorem sane_of_dropHead {idx : ℕ} {ptr : Option ℕ} (hi : idx<s.cidCoMap.mask+1) (hs : Sane s)
    (h : dropHead idx ptr s=.ok t) : Sane t := by
  obtain ⟨leak,hl⟩ := hs.linked
  cases ptr with
  | none =>
    cases h
    refine hs.recount rfl rfl rfl ⟨leak,?_⟩
    exact hl.putSlot (b := {s.cidCoMap.table idx with id := -1,data := none}) hi rfl _
  | some p =>
    obtain ⟨⟨n,rest⟩,hderef,h⟩ := bind_eq_ok h
    obtain ⟨map,hmap,rfl⟩ := map_eq_ok h
    obtain ⟨heap,hheap,rfl⟩ := map_eq_ok hmap
    obtain ⟨front,hnext⟩ := deref_ok hderef
    -- The nodes before the one that takes the place of the embedded node are lost.
    have hlost : ((s.cidCoMap.table idx).addrs : Multiset ℕ)=
        (n.addr ::ₘ (front.map Node.addr : List ℕ))+(⟨n.toDycoHentry,rest⟩ : Slot Co).addrs := by
      rw [Slot.addrs,hnext,List.map_append,List.map_cons,Multiset.cons_add,Multiset.coe_add,
        Multiset.cons_coe]
      exact Multiset.coe_eq_coe.mpr List.perm_middle
    have hdetached := hl.detach hi hlost (s.cidCoMap.count-1)
    rw [Multiset.cons_add] at hdetached
    obtain ⟨hmem,hfreed⟩ := hdetached.free
    cases (release_of_mem hmem).symm.trans hheap
    exact hs.recount rfl rfl rfl ⟨_,hfreed⟩

/-- The kill handling of `resume` keeps what the other releases keep. -/
theorem sane_of_resumeKilled (hs : Sane s) (h : resumeKilled s c=.ok t) : Sane t := by
  obtain ⟨leak,hl⟩ := hs.linked
  have hi := HashTableMap.slot_lt s.cidCoMap.mask (s.co c).cid
  unfold resumeKilled htableDeleteWithFreecb at h
  dsimp only at h
  split_ifs at h
  · cases h
    exact hs
  · obtain ⟨u,hu,h⟩ := bind_eq_ok h
    have hmask := (linked_of_freecb hl hu).2
    rw [← hmask] at hi h
    exact sane_of_dropHead hi (sane_of_freecb hs hu) h
  · obtain ⟨r,hr,h⟩ := bind_eq_ok h
    cases r with
    | none =>
      cases h
      exact hs
    | some r =>
      obtain ⟨front,n,rest⟩ := r
      obtain ⟨u,hu,h⟩ := bind_eq_ok h
      obtain ⟨heap,hheap,rfl⟩ := map_eq_ok h
      -- The node is outside the chains while `coro_abort` runs.
      rcases walk_cases (hl.readable (s.co c).cid) (s.co c).cid with
        ⟨hw,-⟩|⟨front',n',rest',hw,hnext,-,-⟩
      · cases hw.symm.trans hr
      · cases hw.symm.trans hr
        have hunlinked := KillRemoval.Linked.withoutNode hl hnext
        have hsane : Sane (setMap s (KillRemoval.withoutNode s.cidCoMap (s.co c).cid front rest)) :=
          hs.recount rfl rfl rfl ⟨_,hunlinked⟩
        obtain ⟨hmem,hfreed⟩ := (linked_of_freecb hunlinked hu).1.free
        cases (release_of_mem hmem).symm.trans hheap
        exact (sane_of_freecb hsane hu).recount rfl rfl rfl
          ⟨leak,hfreed.nodes,hfreed.distinct,hfreed.below⟩

/-- A call that does not reach `cid_co_map` leaves it alone. -/
theorem map_of_not_reaches {b : CoroutineRegistry.Act} (hb : reachesMap s b=false)
    (h : CoroutineRegistry.step s b=some (.ok t)) : t.cidCoMap=s.cidCoMap := by
  cases b with
  | create isasymmetric => cases hb
  | poolCreate totalsize stacksize isasymmetric =>
    cases h
    refine cpCreate_invariant (fun u => u.cidCoMap=s.cidCoMap) rfl rfl fun u p hu => ?_
    unfold cpAdd
    split
    · exact hu
    · exact hu
  | obtain p isasymmetric =>
    have h : cpObtain s p isasymmetric=.ok t := Option.some.inj h
    have hnone : registers s (.obtain p isasymmetric)=false := hb
    unfold cpObtain at h
    split at h
    · cases h
    next cp hp =>
      have hempty : cp.totalsize-cp.activenum ≤ 0 := by simpa [registers,hp] using hnone
      rw [if_pos hempty] at h
      cases h
      rfl
  | exit c =>
    have hpool : (s.co c).flagsIncoropool=true ∧ (s.co c).cpool=none := by
      simpa [reachesMap] using hb
    simp only [CoroutineRegistry.step] at h
    split_ifs at h with hc
    have h : resumeExited s c=.ok t := Option.some.inj h
    rw [resumeExited,if_pos hpool.1,cpReturn,if_neg (by rw [hc.1]; decide),hpool.2] at h
    cases h
    rfl
  | asymFree cid => cases hb
  | asymReturn cid => cases hb

/-! ## Every run -/

/-- The arrays that the tables of a scheduler still have. -/
def holds (w : World) : Multiset ℕ :=
  if w.gone then 0
  else if w.status=.aborted then {w.fdArray}
  else w.cidArray ::ₘ {w.fdArray}

/-- What holds in every state. -/
structure Sound (w : World) : Prop where
  /-- Every array was freed once, or a table has it. -/
  ledger : Ledger w.arrays (holds w)
  cid : w.cidArray<w.arrays.fresh
  fd : w.fdArray<w.arrays.fresh
  /-- An aborted scheduler has a pointer to an array that was freed. -/
  aborted : w.status=.aborted → w.cidArray∈w.arrays.freed
  sane : w.gone=false → w.status≠.aborted → Sane w.reg
  linked : w.gone=false → ∃ leak,Linked leak w.fdCoMap

/-- A new scheduler holds its two arrays. -/
theorem sound_dycoScheduleCreate (schedId : ℕ) : Sound (dycoScheduleCreate schedId) := by
  refine ⟨?_,Nat.one_lt_two,Nat.zero_lt_two,fun h => ?_,fun _ _ => sane_newScheduler schedId,
    fun _ => ⟨0,linked_htableInit 0⟩⟩
  · show (0 : Multiset ℕ)+(1 ::ₘ {0})=Multiset.range 2
    decide
  · cases h

/-- Both arrays are held until the abort. -/
theorem holds_of_live (hg : w.gone=false) (hst : w.status≠.aborted) :
    holds w=w.cidArray ::ₘ {w.fdArray} := by
  simp [holds,hg,hst]

/-- After the abort only `fd_co_map` has an array. -/
theorem holds_of_aborted (hg : w.gone=false) (hst : w.status=.aborted) :
    holds w={w.fdArray} := by
  simp [holds,hg,hst]

/-- The status changes, but the scheduler is not aborted. -/
theorem Sound.setStatus {status : SchedStatus} (h : Sound w) (hw : w.status≠.aborted)
    (hst : status≠.aborted) : Sound {w with status := status} := by
  refine ⟨?_,h.cid,h.fd,fun ha => absurd ha hst,fun hg _ => h.sane hg hw,h.linked⟩
  have hsame : holds {w with status := status}=holds w := by simp [holds,hw,hst]
  rw [hsame]
  exact h.ledger

/-- An operation on `cid_co_map` frees the old array at most once, when it resizes. -/
theorem Sound.putReg (h : Sound w) (hg : w.gone=false) (hst : w.status≠.aborted) (hs : Sane s) :
    ∃ v,putReg w s=.ok v ∧ v.status=w.status ∧ Sound v := by
  have hledger := h.ledger
  rw [holds_of_live hg hst] at hledger
  obtain ⟨array,m,hsettle,hnew,hle⟩ := hledger.settle w.reg.cidCoMap s.cidCoMap
  have hv : AbortedTables.putReg w s=.ok {w with reg := s,cidArray := array,arrays := m} := by
    rw [AbortedTables.putReg,hsettle]
    rfl
  refine ⟨_,hv,rfl,?_,hnew.lt (Multiset.mem_cons_self ..),h.fd.trans_le hle,
    fun ha => absurd ha hst,fun _ _ => hs,h.linked⟩
  have hholds : holds {w with reg := s,cidArray := array,arrays := m}=array ::ₘ {w.fdArray} :=
    holds_of_live hg hst
  rw [hholds]
  exact hnew

/-- An operation on `fd_co_map` frees the old array at most once, when it resizes. -/
theorem Sound.putFd (h : Sound w) (hg : w.gone=false) (hst : w.status≠.aborted)
    (hl : Linked leak ht) : ∃ v,putFd w ht=.ok v ∧ Sound v := by
  have hswap : ∀ array,array ::ₘ {w.cidArray}=w.cidArray ::ₘ ({array} : Multiset ℕ) :=
    fun array => Multiset.pair_comm ..
  have hledger := h.ledger
  rw [holds_of_live hg hst,← hswap] at hledger
  obtain ⟨array,m,hsettle,hnew,hle⟩ := hledger.settle w.fdCoMap ht
  have hv : AbortedTables.putFd w ht=.ok {w with fdCoMap := ht,fdArray := array,arrays := m} := by
    rw [AbortedTables.putFd,hsettle]
    rfl
  refine ⟨_,hv,?_,h.cid.trans_le hle,hnew.lt (Multiset.mem_cons_self ..),
    fun ha => absurd ha hst,h.sane,fun _ => ⟨leak,hl⟩⟩
  have hholds : holds {w with fdCoMap := ht,fdArray := array,arrays := m}=
      w.cidArray ::ₘ {array} := holds_of_live hg hst
  rw [hholds,← hswap]
  exact hnew

/-- No call brings an aborted scheduler back. -/
theorem revived_aborted_iff (b : CoroutineRegistry.Act) :
    revived w b=.aborted ↔ w.status=.aborted := by
  unfold revived
  split
  · split_ifs with hd
    · simp [hd]
    · rfl
  · split_ifs with hd
    · simp [hd.1]
    · rfl
  · rfl

/-- What a step can come to: a sound state, a failure of the process, or the use of an
array that was freed, which only the calls of an aborted scheduler come to. -/
def Expected (w : World) (a : Act) : Except Failure World → Prop
  | .ok v => Sound v
  | .error .released => w.gone=false ∧ w.status=.aborted ∧ inside a=false ∧ usesCids w a=true
  | .error (.fault _) => True

/-- A fault of the registry is a failure that is expected. -/
theorem expected_lift {α : Type} {x : Except Fault α} {f : α → Except Failure World}
    (h : ∀ y,x=.ok y → Expected w a (f y)) : Expected w a (lift x>>=f) := by
  cases x with
  | error e => trivial
  | ok y => exact h y rfl

/-- A lookup leaves the state as it is. -/
theorem expected_lookup {α : Type} {x : Except Fault α} (h : Sound w) :
    Expected w a ((lift x).map fun _ => w) := by
  cases x with
  | error e => trivial
  | ok y => exact h

/-- Without a resize the table keeps its array. -/
theorem putReg_of_width (h : s.cidCoMap.width=w.reg.cidCoMap.width) :
    putReg w s=.ok {w with reg := s} := by
  rw [putReg,Arrays.settle,if_pos h]
  rfl

/-- A call of the registry. -/
theorem expected_call {b : CoroutineRegistry.Act} {r : Except Failure World} (h : Sound w)
    (hg : w.gone=false) (hread : ¬(reachesMap w.reg b=true ∧ w.cidArray∈w.arrays.freed))
    (hr : proceed w (.call b)=some r) : Expected w (.call b) r := by
  obtain ⟨x,hx,rfl⟩ := Option.map_eq_some_iff.mp hr
  cases x with
  | error e => trivial
  | ok s =>
    by_cases hst : w.status=.aborted
    · have hnot : reachesMap w.reg b=false :=
        Bool.eq_false_iff.mpr fun hb => hread ⟨hb,h.aborted hst⟩
      show Expected w _ (putReg w s>>=_)
      rw [putReg_of_width (congrArg Table.width (map_of_not_reaches hnot hx))]
      have hrevived := (revived_aborted_iff (w := w) b).mpr hst
      refine ⟨?_,h.cid,h.fd,fun _ => h.aborted hst,fun _ hne => absurd hrevived hne,h.linked⟩
      have hholds : holds {w with reg := s,status := revived w b}={w.fdArray} :=
        holds_of_aborted hg hrevived
      rw [hholds,← holds_of_aborted hg hst]
      exact h.ledger
    · obtain ⟨v,hv,hstatus,hsound⟩ := h.putReg hg hst ((h.sane hg hst).moves (moves_of_step hx))
      show Expected w _ (putReg w s>>=_)
      rw [hv]
      exact hsound.setStatus (hstatus ▸ hst) (mt (revived_aborted_iff b).mp hst)

/-- `schedule_abort` frees the array of `cid_co_map`. -/
theorem expected_abort (h : Sound w) (hg : w.gone=false) (hst : w.status≠.aborted) :
    Expected w a (scheduleAbort w) := by
  refine expected_lift fun s _ => ?_
  have hledger := h.ledger
  rw [holds_of_live hg hst] at hledger
  obtain ⟨hfree,hrest⟩ := hledger.free
  rw [hfree]
  refine ⟨?_,h.cid,h.fd,fun _ => List.mem_cons_self,fun _ hne => absurd rfl hne,h.linked⟩
  simp only [holds,hg,Bool.false_eq_true,if_false,if_true]
  exact hrest

/-- `dyco_schedule_free` frees both arrays if the scheduler is not aborted. -/
theorem dycoScheduleFree_live (h : Sound w) (hg : w.gone=false) (hst : w.status≠.aborted) :
    ∃ v,dycoScheduleFree w=.ok v ∧ v.gone=true ∧ Sound v := by
  obtain ⟨leak,hlinked⟩ := h.linked hg
  obtain ⟨leak',hlinked'⟩ := (h.sane hg hst).linked
  have hswap : w.cidArray ::ₘ {w.fdArray}=w.fdArray ::ₘ ({w.cidArray} : Multiset ℕ) :=
    Multiset.pair_comm ..
  have hledger := h.ledger
  rw [holds_of_live hg hst,hswap] at hledger
  obtain ⟨fdCoMap,hfd⟩ := htableClear_spec hledger hlinked
  have hrest : Ledger _ (w.cidArray ::ₘ 0) := hledger.free.2
  obtain ⟨cidCoMap,hcid⟩ := htableClear_spec hrest hlinked'
  have hdone : dycoScheduleFree w=.ok {w with
      reg := setMap w.reg cidCoMap
      fdCoMap := fdCoMap
      arrays := {w.arrays with freed := w.cidArray::w.fdArray::w.arrays.freed}
      gone := true} := by
    rw [dycoScheduleFree,hfd]
    show (htableClear _ _ _>>=_)=_
    rw [hcid]
    rfl
  exact ⟨_,hdone,rfl,hrest.free.2,h.cid,h.fd,fun ha => absurd ha hst,
    fun hgone => (by cases hgone),fun hgone => (by cases hgone)⟩

/-- `dyco_schedule_free` comes to the array that `schedule_abort` has freed. -/
theorem dycoScheduleFree_aborted (h : Sound w) (hg : w.gone=false) (hst : w.status=.aborted) :
    dycoScheduleFree w=.error .released := by
  obtain ⟨leak,hlinked⟩ := h.linked hg
  have hledger : Ledger w.arrays (w.fdArray ::ₘ 0) := by
    rw [Multiset.cons_zero,← holds_of_aborted hg hst]
    exact h.ledger
  obtain ⟨fdCoMap,hfd⟩ := htableClear_spec hledger hlinked
  rw [dycoScheduleFree,hfd]
  show (htableClear _ w.cidArray _>>=_)=_
  rw [htableClear,if_pos (List.mem_cons_of_mem _ (h.aborted hst))]
  rfl

/-- A scheduler that is not aborted has the array of `cid_co_map`. -/
theorem Sound.cid_held (h : Sound w) (hg : w.gone=false) (hst : w.status≠.aborted) :
    w.cidArray∉w.arrays.freed := by
  have hledger := h.ledger
  rw [holds_of_live hg hst] at hledger
  have hnodup := hledger.nodup
  rw [Multiset.add_cons,Multiset.nodup_cons] at hnodup
  exact fun ha => hnodup.1 (Multiset.mem_add.mpr (.inl ha))

/-- What reads the table uses it. -/
theorem usesCids_of_readsCids (h : readsCids w a=true) : usesCids w a=true := by
  cases a with
  | free => rfl
  | _ => exact h

/-- A step whose arrays are there comes to what is expected. -/
theorem expected_of_proceed {r : Except Failure World} (h : Sound w) (hg : w.gone=false)
    (hin : inside a=true → w.status=.running)
    (hread : ¬(readsCids w a=true ∧ w.cidArray∈w.arrays.freed)) (hr : proceed w a=some r) :
    Expected w a r := by
  have hlive : inside a=true → w.status≠.aborted := fun ha => by rw [hin ha]; decide
  cases a with
  | call b => exact expected_call h hg hread hr
  | kill c =>
    obtain ⟨-,⟨⟩⟩ := Option.ite_none_right_eq_some.mp hr
    refine expected_lift fun s hs => ?_
    have hsane := sane_of_resumeKilled (h.sane hg (hlive rfl)) hs
    obtain ⟨v,hv,-,hsound⟩ := h.putReg hg (hlive rfl) hsane
    rw [hv]
    exact hsound
  | lookup cid =>
    cases hr
    exact expected_lookup h
  | wait c fd =>
    obtain ⟨-,⟨⟩⟩ := Option.ite_none_right_eq_some.mp hr
    obtain ⟨leak,hlinked⟩ := h.linked hg
    refine expected_lift fun x hx => ?_
    obtain ⟨ret,map,hmap,leak',hlinked'⟩ := hlinked.htableInsert fd (some c)
    cases hmap.symm.trans hx
    obtain ⟨v,hv,hsound⟩ := h.putFd hg (hlive rfl) hlinked'
    rw [hv]
    exact hsound
  | cancelWait fd =>
    cases hr
    obtain ⟨leak,hlinked⟩ := h.linked hg
    refine expected_lift fun x hx => ?_
    obtain ⟨v,hv,hsound⟩ := h.putFd hg (hlive rfl) (hlinked.of_htableDelete hx).1
    rw [hv]
    exact hsound
  | event fd =>
    cases hr
    exact expected_lookup h
  | run =>
    cases hr
    unfold dycoScheduleRun
    split
    · trivial
    · exact h
    · exact h
    next hne _ => exact h.setStatus hne (by decide)
  | finish =>
    cases hr
    exact h.setStatus (hlive rfl) (by decide)
  | stop =>
    cases hr
    exact h.setStatus (hlive rfl) (by decide)
  | abort c =>
    obtain ⟨-,⟨⟩⟩ := Option.ite_none_right_eq_some.mp hr
    exact expected_abort h hg (hlive rfl)
  | free =>
    obtain ⟨-,⟨⟩⟩ := Option.ite_none_left_eq_some.mp hr
    by_cases hst : w.status=.aborted
    · rw [dycoScheduleFree_aborted h hg hst]
      exact ⟨hg,hst,rfl,rfl⟩
    · obtain ⟨v,hv,-,hsound⟩ := dycoScheduleFree_live h hg hst
      rw [hv]
      exact hsound

/-- The steps before `dyco_schedule_free`. -/
theorem step_live (hg : w.gone=false) : step w a=
    if inside a=true ∧ w.status≠.running then none
    else if readsCids w a=true ∧ w.cidArray∈w.arrays.freed then some (.error .released)
    else proceed w a := by
  unfold step
  rw [hg]
  rfl

/-- Every step comes to what is expected. -/
theorem expected_of_step {r : Except Failure World} (h : Sound w) (hr : step w a=some r) :
    Expected w a r := by
  by_cases hg : w.gone=true
  · unfold step at hr
    rw [if_pos hg] at hr
    split at hr
    · cases hr
      exact h
    · cases hr
      exact h
    · cases hr
  have hg : w.gone=false := Bool.eq_false_iff.mpr hg
  rw [step_live hg] at hr
  split_ifs at hr with hin hread
  · -- The array was freed, so that the scheduler is aborted and nothing inside it runs.
    cases hr
    have hst : w.status=.aborted := by
      by_contra hst
      exact h.cid_held hg hst hread.2
    have hout : inside a=false := by
      refine Bool.eq_false_iff.mpr fun ha => hin ⟨ha,?_⟩
      rw [hst]
      decide
    exact ⟨hg,hst,hout,usesCids_of_readsCids hread.1⟩
  · refine expected_of_proceed h hg (fun ha => ?_) hread hr
    by_contra hst
    exact hin ⟨ha,hst⟩

/-- Every reachable state is sound. -/
theorem sound_of_reachable (h : Reachable w) : Sound w := by
  obtain ⟨schedId,hruns⟩ := h
  exact hruns.invariant Sound (sound_dycoScheduleCreate schedId) fun _ _ _ hw _ hv =>
    expected_of_step hw hv

/-- What an aborted scheduler does to the calls that use `cid_co_map`. -/
theorem step_of_aborted (h : Sound w) (hg : w.gone=false) (hst : w.status=.aborted)
    (hout : inside a=false) (huse : usesCids w a=true) : step w a=some (.error .released) := by
  have hin : ¬(inside a=true ∧ w.status≠.running) := by
    rw [hout]
    exact fun hin => Bool.false_ne_true hin.1
  rw [step_live hg,if_neg hin]
  by_cases hread : readsCids w a=true
  · rw [if_pos ⟨hread,h.aborted hst⟩]
  · rw [if_neg fun hr => hread hr.1]
    cases a with
    | free =>
      have hne : ¬w.status=.running := by
        rw [hst]
        decide
      rw [proceed,if_neg hne,dycoScheduleFree_aborted h hg hst]
    | _ => exact absurd huse hread

/-- An aborted scheduler cannot be cleaned up. In every state, the calls that use an array
after it was freed are those that use `cid_co_map` of an aborted scheduler, among them
`dyco_schedule_free`; this frees both arrays iff the scheduler is not aborted, and no
array is freed twice. -/
theorem released_array_used_iff (h : Reachable w) :
    (∀ a,step w a=some (.error .released) ↔
      w.gone=false ∧ w.status=.aborted ∧ inside a=false ∧ usesCids w a=true) ∧
    (w.gone=false → w.status≠.running →
      ((∃ v,step w .free=some (.ok v)) ↔ w.status≠.aborted)) ∧
    w.arrays.freed.Nodup ∧
    (w.gone=true → w.arrays.freed.count w.cidArray=1 ∧ w.arrays.freed.count w.fdArray=1) := by
  have hs := sound_of_reachable h
  refine ⟨fun a => ⟨fun ha => expected_of_step hs ha,fun ha => ?_⟩,fun hg hrun => ?_,?_,
    fun hg => ?_⟩
  · exact step_of_aborted hs ha.1 ha.2.1 ha.2.2.1 ha.2.2.2
  · constructor
    · rintro ⟨v,hv⟩ hst
      rw [step_of_aborted hs hg hst rfl rfl] at hv
      cases hv
    · intro hst
      obtain ⟨v,hv,-,-⟩ := dycoScheduleFree_live hs hg hst
      refine ⟨v,?_⟩
      rw [step_live hg,if_neg (by simp [inside]),if_neg (by simp [readsCids]),proceed,
        if_neg hrun,hv]
  · exact Multiset.coe_nodup.mp (Multiset.nodup_of_le (Multiset.le_add_right ..) hs.ledger.nodup)
  · have hledger : Ledger w.arrays 0 := by
      have hholds : holds w=0 := by simp [holds,hg]
      rw [← hholds]
      exact hs.ledger
    exact ⟨hledger.count_freed hs.cid,hledger.count_freed hs.fd⟩

/-- The table with the first coroutine of the first scheduler. -/
def firstTable : Table Co := putSlot (htableInit 0) 1 ⟨⟨16777217,some 0⟩,[]⟩ 1

/-- The first coroutine of the first scheduler and its table. -/
theorem first_created : Fresh (newScheduler 1) (.create false) ∧
    ∃ t,CoroutineRegistry.step (newScheduler 1) (.create false)=some (.ok t) ∧
      t.cidCoMap=firstTable ∧ t.co 0=⟨.live,16777217,true,false,false,none⟩ := by
  have hcid : (newScheduler 1).nextCid=16777217 := by decide +kernel
  have hslot : slot (htableInit 0 : Table Co).mask 16777217=1 := by decide +kernel
  refine ⟨fun _ => ⟨fun d hd => (by cases hd),by rw [hcid]; decide⟩,_,
    congrArg some (create_first 1),?_,?_⟩
  · rw [hcid,hslot]
    rfl
  · show Function.update (Function.update (newScheduler 1).co 0 (newRecord false)) 0 _ 0=_
    rw [Function.update_self,← hcid]
    rfl

/-- No slot of that table has a chain. -/
theorem firstTable_flat : AbortRelease.flat firstTable := by
  intro i _
  by_cases hi : i=1
  · subst hi
    exact ⟨rfl,.inr (Option.some_ne_none _)⟩
  · rw [show firstTable.table i=Slot.cleared from Function.update_of_ne hi ..]
    exact ⟨rfl,.inl rfl⟩

/-- A coroutine is created, the scheduler runs, and the coroutine calls
`dyco_schedcall_abort`. -/
theorem aborted_reachable : ∃ w,Reachable w ∧ w.gone=false ∧ w.status=.aborted := by
  obtain ⟨hfresh,t,ht,hmap,hfirst⟩ := first_created
  have hflat : AbortRelease.flat t.cidCoMap := hmap ▸ firstTable_flat
  have hreach : CoroutineRegistry.Reachable Fresh t := ⟨1,.tail .refl hfresh ht⟩
  obtain ⟨u,-,hu,-⟩ :=
    (AbortRelease.abortedOnce_iff (RegistryContents.kept_of_reachable hreach).2).mpr hflat
  have hcreate : step (dycoScheduleCreate 1) (.call (.create false))=
      some (.ok {dycoScheduleCreate 1 with reg := t}) := by
    have hwidth : t.cidCoMap.width=(dycoScheduleCreate 1).reg.cidCoMap.width := by
      rw [hmap]
      rfl
    rw [step_live rfl,if_neg fun h => Bool.false_ne_true h.1,if_neg fun h => nomatch h.2]
    show Option.map (fun r => lift r>>=putReg (dycoScheduleCreate 1)>>=_)
      (CoroutineRegistry.step (newScheduler 1) (.create false))=_
    rw [ht]
    show some (putReg (dycoScheduleCreate 1) t>>=_)=_
    rw [putReg_of_width hwidth]
    rfl
  have hrun : step {dycoScheduleCreate 1 with reg := t} .run=
      some (.ok {dycoScheduleCreate 1 with reg := t,status := .running}) := rfl
  have hruns : runs {dycoScheduleCreate 1 with reg := t,status := .running} 0=true := by
    show (decide ((t.co 0).life=.live) && !(t.co 0).flagsAsymmetric)=true
    rw [hfirst]
    rfl
  have habort : step {dycoScheduleCreate 1 with reg := t,status := .running} (.abort 0)=
      some (.ok {dycoScheduleCreate 1 with
        reg := u,status := .aborted,arrays := ⟨2,[1]⟩}) := by
    show (if runs _ 0 then some (scheduleAbort _) else none)=_
    rw [if_pos hruns,scheduleAbort,show CoroutineRegistry.scheduleAbort _=_ from hu]
    rfl
  exact ⟨_,⟨1,((Runs.refl.tail trivial hcreate).tail trivial hrun).tail trivial habort⟩,rfl,rfl⟩

/-- An aborted scheduler: to create a coroutine, to look up a cid and to free the
scheduler all come to the array that was freed. -/
theorem aborted_table_used : ∃ w,Reachable w ∧ w.status=.aborted ∧
    step w (.call (.create false))=some (.error .released) ∧
    step w (.lookup 16777217)=some (.error .released) ∧
    step w .free=some (.error .released) := by
  obtain ⟨w,hw,hg,hst⟩ := aborted_reachable
  have hs := sound_of_reachable hw
  exact ⟨w,hw,hst,step_of_aborted hs hg hst rfl rfl,step_of_aborted hs hg hst rfl rfl,
    step_of_aborted hs hg hst rfl rfl⟩

/-- A new scheduler can be freed, and of an aborted one only what does not use the table
can be called. -/
theorem released_array_used_iff_aborted : (∃ v,step (dycoScheduleCreate 1) .free=some (.ok v)) ∧
    ∃ w,Reachable w ∧ w.status=.aborted ∧ step w .free=some (.error .released) ∧
      step w .run≠some (.error .released) ∧ w.arrays.freed.Nodup := by
  have hnew := (released_array_used_iff ⟨1,.refl⟩).2.1 rfl (by decide)
  obtain ⟨w,hw,hg,hst⟩ := aborted_reachable
  obtain ⟨hused,-,hnodup,-⟩ := released_array_used_iff hw
  refine ⟨hnew.mpr (by decide),w,hw,hst,(hused _).mpr ⟨hg,hst,rfl,rfl⟩,fun hrun => ?_,hnodup⟩
  cases ((hused _).mp hrun).2.2.2

end DycoCoroutine.AbortedTables
