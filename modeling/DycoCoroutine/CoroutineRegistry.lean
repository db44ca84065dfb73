import DycoCoroutine.ChainedTable
import DycoCoroutine.CoroutinePool

/-!
# Registered coroutines and the table that holds them

The coroutine objects of a scheduler with `cid_co_map` as the table that it is.
Coroutines are created, obtained from pools and released. `resume` takes a killed
coroutine out of the table by `htable_delete_with_freecb`, and `schedule_abort` takes
out all of them by `htable_clear_with_freecb`; both call `coro_abort`, which deletes
from the same table while they hold pointers into it. No coroutine has an epoll
instance or a signal descriptor of its own here, and nobody waits for a pool.
-/

namespace DycoCoroutine.CoroutineRegistry

open ScheduleState RunInvariant ChainedTable
open HashTable (slot)
open CoroutinePool (Coro newRecord)

/-- The fields of `struct dyco_schedule` that keep account of coroutines, the objects
and the pools. -/
structure Registry where
  /-- `sched_id` -/
  schedId : ℕ
  /-- `_cid_gen` -/
  cidGen : ℕ
  /-- `coro_count`, an unsigned int. -/
  coroCount : UInt32
  /-- `cid_co_map` -/
  cidCoMap : Table Co
  /-- The coroutine objects. -/
  co : Co → Coro
  /-- The next object the allocator hands out. -/
  nextCo : Co
  /-- The pools. -/
  pools : ℕ → Option CoroPool
  /-- The next pool. -/
  nextPool : ℕ
  /-- The coroutines that `coro_abort` was called with, in order. -/
  aborted : List Co

/-- The cid that is handed out next. -/
def Registry.nextCid (s : Registry) : ℤ := cidOf s.schedId ((s.cidGen+1)%2^24)

/-- Replace `cid_co_map`. -/
def setMap (s : Registry) (map : Table Co) : Registry := {s with cidCoMap := map}

/-- A new object with this record. -/
def newcoro (s : Registry) (r : Coro) : Registry :=
  {s with nextCo := s.nextCo+1,co := Function.update s.co s.nextCo r}

/-- An object with the next cid, counted and in the table `map`. -/
def enroll (s : Registry) (c : Co) (map : Table Co) : Registry :=
  {s with
    cidGen := (s.cidGen+1)%2^24
    cidCoMap := map
    coroCount := s.coroCount+1
    co := Function.update s.co c {s.co c with life := .live,cid := s.nextCid,sched := true}}

/-- Give an object the next cid and enter it in `cid_co_map`. A symmetric coroutine
MUST be entered when it is created; in all other cases the result is ignored. -/
def register (s : Registry) (c : Co) (must : Bool) : Except Fault Registry := do
  let r ← htableInsert s.cidCoMap s.nextCid (some c)
  if must=true ∧ r.1<0 then .error .must else .ok (enroll s c r.2)

/-- `dyco_coroutine_create`, `dyco_coroutine_create_urgent` and `dyco_asymcoro_create` -/
def createCoro (s : Registry) (isasymmetric : Bool) : Except Fault Registry :=
  register (newcoro s (newRecord isasymmetric)) s.nextCo (!isasymmetric)

/-- Replace a pool. -/
def putPool (s : Registry) (p : ℕ) (cp : CoroPool) : Registry :=
  {s with pools := Function.update s.pools p (some cp)}

/-- One round of the loop of `cp_create`: a new object at the head of the freelist. -/
def cpAdd (p : ℕ) (isasymmetric : Bool) (s : Registry) : Registry :=
  match s.pools p with
  | none => s
  | some cp => putPool (newcoro s ⟨.idle,0,false,isasymmetric,true,some p⟩) p
    {cp with freelist := s.nextCo::cp.freelist}

/-- `cp_create` -/
def cpCreate (s : Registry) (totalsize : ℤ) (stacksize : ℕ) (isasymmetric : Bool) : Registry :=
  if totalsize≤0 then s
  else (cpAdd s.nextPool isasymmetric)^[totalsize.toNat]
    {putPool s s.nextPool ⟨totalsize,0,stacksize,[]⟩ with nextPool := s.nextPool+1}

/-- The status word that `cp_obtain` gives a coroutine. -/
def renew (s : Registry) (c : Co) (isasymmetric : Bool) : Registry :=
  let record := {s.co c with flagsAsymmetric := isasymmetric,flagsIncoropool := true}
  {s with co := Function.update s.co c record}

/-- `cp_obtain` from the point where `cp_wait` returns the number of available
coroutines. -/
def cpObtain (s : Registry) (p : ℕ) (isasymmetric : Bool) : Except Fault Registry :=
  match s.pools p with
  | none => .error .undefined
  | some cp =>
    if cp.totalsize-cp.activenum≤0 then .ok s
    else match cp.freelist with
      | [] => .error .undefined
      | c::rest =>
        register (renew (putPool s p {cp with freelist := rest,activenum := cp.activenum+1}) c
          isasymmetric) c false

/-- Leave the count and `cid_co_map`, as every release does. -/
def unregister (s : Registry) (c : Co) (life : Life) : Except Fault Registry :=
  if (s.co c).life=.freed ∨ (s.co c).sched=false then .error .undefined
  else (htableDelete s.cidCoMap (s.co c).cid).map fun r => {s with
    coroCount := s.coroCount-1
    cidCoMap := r.2
    co := Function.update s.co c {s.co c with life := life}}

/-- `freecoro` -/
def freecoro (s : Registry) (c : Co) : Except Fault Registry := unregister s c .freed

/-- `cp_return` -/
def cpReturn (s : Registry) (c : Co) : Except Fault Registry :=
  if (s.co c).life=.freed then .error .undefined
  else match (s.co c).cpool with
    | none => .ok s
    | some p => match s.pools p with
      | none => .error .undefined
      | some cp => (unregister s c .idle).map fun s =>
        putPool s p {cp with freelist := c::cp.freelist,activenum := cp.activenum-1}

/-- `dyco_asymcoro_free`, whose `assert(0)` does nothing. -/
def dycoAsymcoroFree (s : Registry) (cid : ℤ) : Except Fault Registry := do
  match ← htableFind s.cidCoMap cid with
  | none => .ok s
  | some c =>
    if (s.co c).life=.freed then .error .undefined
    else if (s.co c).flagsAsymmetric then unregister s c .freed
    else .ok s

/-- `dyco_asymcpool_return` -/
def dycoAsymcpoolReturn (s : Registry) (cid : ℤ) : Except Fault Registry := do
  match ← htableFind s.cidCoMap cid with
  | none => .ok s
  | some c => cpReturn s c

/-- The body of `coro_abort`, by the four kinds of coroutines. -/
def endCoro (s : Registry) (c : Co) : Except Fault Registry :=
  if (s.co c).life=.freed then .error .undefined
  else if (s.co c).flagsIncoropool then
    if (s.co c).flagsAsymmetric then dycoAsymcpoolReturn s (s.co c).cid else cpReturn s c
  else if (s.co c).flagsAsymmetric then dycoAsymcoroFree s (s.co c).cid
  else freecoro s c

/-- `coro_abort`, which reads through its argument. -/
def coroAbort (s : Registry) (data : Option Co) : Except Fault Registry :=
  match data with
  | none => .error .undefined
  | some c => endCoro {s with aborted := s.aborted++[c]} c

/-! ## Killing -/

/-- The end of `htable_delete_with_freecb` for an embedded node, with the pointer to
the node behind it that was read before the callback. -/
def dropHead (idx : ℕ) (ptr : Option ℕ) (s : Registry) : Except Fault Registry :=
  match ptr with
  | some p => do
    let (n,rest) ← deref s.cidCoMap idx p
    (promote s.cidCoMap idx n rest).map (setMap s)
  | none => .ok (setMap s (vacate s.cidCoMap idx))

/-- The end of `htable_delete_with_freecb` for a node of a chain, which was unlinked
before the callback. -/
def dropNode (p : ℕ) (s : Registry) : Except Fault Registry :=
  (release s.cidCoMap.heap p).map fun heap =>
    setMap s {s.cidCoMap with heap := heap,count := s.cidCoMap.count-1}

/-- The callback on data that is not NULL. -/
def freecb (s : Registry) (data : Option Co) : Except Fault Registry :=
  if data=none then .ok s else coroAbort s data

/-- `htable_delete_with_freecb` on `cid_co_map` with `coro_abort` -/
def htableDeleteWithFreecb (s : Registry) (id : ℤ) : Except Fault Registry :=
  let idx := slot s.cidCoMap.mask id
  let bucket := s.cidCoMap.table idx
  if bucket.id=-1 then .ok s
  else if bucket.id=id then do
    let t ← freecb s bucket.data
    dropHead idx (bucket.next.head?.map Node.addr) t
  else do
    match ← walk s.cidCoMap.heap id bucket.next with
    | none => .ok s
    | some (front,n,rest) => do
      let t ← freecb (setMap s (putSlot s.cidCoMap idx {bucket with next := front++rest}
        s.cidCoMap.count)) n.data
      dropNode n.addr t

/-- The end of `resume` for a killed coroutine. -/
def resumeKilled (s : Registry) (c : Co) : Except Fault Registry :=
  htableDeleteWithFreecb s (s.co c).cid

/-! ## Aborting -/

/-- The inner loop of `htable_clear_with_freecb` from the node `pre` on. Every round
frees a node, so that there are no more rounds than nodes. -/
def clearChain (i : ℕ) : ℕ → Option ℕ → Registry → Except Fault Registry
  | _,none,s => .ok s
  | 0,some _,_ => .error .undefined
  | rounds+1,some p,s => do
    let (n,rest) ← deref s.cidCoMap i p
    let t ← coroAbort s n.data
    let heap ← release t.cidCoMap.heap p
    clearChain i rounds (rest.head?.map Node.addr) (setMap t {t.cidCoMap with heap := heap})

/-- One round of the outer loop of `htable_clear_with_freecb`. -/
def clearSlot (s : Registry) (i : ℕ) : Except Fault Registry :=
  if (s.cidCoMap.table i).id=-1 then .ok s
  else do
    let t ← coroAbort s (s.cidCoMap.table i).data
    clearChain i t.cidCoMap.heap.length ((t.cidCoMap.table i).next.head?.map Node.addr) t

/-- `htable_clear_with_freecb` on `cid_co_map` with `coro_abort` -/
def htableClearWithFreecb (s : Registry) : Except Fault Registry :=
  ((List.range (s.cidCoMap.mask+1)).foldlM clearSlot s).map fun t =>
    setMap t {t.cidCoMap with width := 0,mask := 0,count := 0}

/-- `schedule_abort`, as far as coroutines go. -/
def scheduleAbort (s : Registry) : Except Fault Registry := htableClearWithFreecb s

/-! ## The machine -/

/-- What can happen next. -/
inductive Act
  /-- A coroutine is created. -/
  | create (isasymmetric : Bool)
  /-- `cp_create` -/
  | poolCreate (totalsize : ℤ) (stacksize : ℕ) (isasymmetric : Bool)
  /-- `cp_obtain` -/
  | obtain (p : ℕ) (isasymmetric : Bool)
  /-- The function of a symmetric coroutine returns. -/
  | exit (c : Co)
  /-- `dyco_asymcoro_free` -/
  | asymFree (cid : ℤ)
  /-- `dyco_asymcpool_return` of an asymmetric coroutine. -/
  | asymReturn (cid : ℤ)

/-- The end of `resume` for a coroutine that has exited. -/
def resumeExited (s : Registry) (c : Co) : Except Fault Registry :=
  if (s.co c).flagsIncoropool then cpReturn s c else freecoro s c

/-- One step. -/
def step (s : Registry) : Act → Option (Except Fault Registry)
  | .create isasymmetric => some (createCoro s isasymmetric)
  | .poolCreate totalsize stacksize isasymmetric =>
    some (.ok (cpCreate s totalsize stacksize isasymmetric))
  | .obtain p isasymmetric => some (cpObtain s p isasymmetric)
  | .exit c =>
    if (s.co c).life=.live ∧ (s.co c).flagsAsymmetric=false then some (resumeExited s c) else none
  | .asymFree cid => some (dycoAsymcoroFree s cid)
  | .asymReturn cid => match htableFind s.cidCoMap cid with
    | .ok (some c) => if (s.co c).flagsAsymmetric then some (dycoAsymcpoolReturn s cid) else none
    | _ => some (dycoAsymcpoolReturn s cid)

/-- Whether a step hands out a cid. -/
def registers (s : Registry) : Act → Bool
  | .create _ => true
  | .obtain p _ => (s.pools p).any fun cp => 0<cp.totalsize-cp.activenum
  | _ => false

/-- The next cid is that of no live coroutine, and not the -1 that marks an empty
slot. -/
def Unused (s : Registry) : Prop :=
  (∀ d,(s.co d).life=.live → (s.co d).cid≠s.nextCid) ∧ s.nextCid≠-1

/-- A cid that is handed out is fresh. -/
def Fresh (s : Registry) (a : Act) : Prop := registers s a=true → Unused s

/-- A new scheduler without coroutines and pools. -/
def newScheduler (schedId : ℕ) : Registry :=
  ⟨schedId,0,0,htableInit 0,fun _ => ⟨.unborn,0,false,false,false,none⟩,0,fun _ => none,0,[]⟩

/-- The states reached by creations, obtains and releases that meet `cond`. -/
def Reachable (cond : Registry → Act → Prop) (s : Registry) : Prop :=
  ∃ schedId,Runs step cond (newScheduler schedId) s

/-- What is reached under a condition is reached. -/
theorem Reachable.any {cond : Registry → Act → Prop} {s : Registry} (h : Reachable cond s) :
    Reachable (fun _ _ => True) s := by
  obtain ⟨schedId,hruns⟩ := h
  exact ⟨schedId,hruns.mono fun _ _ _ => trivial⟩

/-! ## What a step does -/

variable {s t u : Registry} {a : Act} {c d : Co} {p : ℕ} {cp : CoroPool} {life : Life}
  {isasymmetric must : Bool} {leak : Multiset ℕ}

/-- What a registration without a fault has done. -/
theorem register_ok (h : register s c must=.ok t) :
    ∃ ret map,htableInsert s.cidCoMap s.nextCid (some c)=.ok (ret,map) ∧ t=enroll s c map := by
  obtain ⟨r,hr,h⟩ := bind_eq_ok h
  split_ifs at h
  cases h
  exact ⟨r.1,r.2,hr,rfl⟩

/-- What a release without a fault has done. -/
theorem unregister_ok (h : unregister s c life=.ok t) :
    (s.co c).life≠.freed ∧ ∃ ret map,htableDelete s.cidCoMap (s.co c).cid=.ok (ret,map) ∧ t={s with
      coroCount := s.coroCount-1
      cidCoMap := map
      co := Function.update s.co c {s.co c with life := life}} := by
  unfold unregister at h
  split_ifs at h with hfault
  obtain ⟨r,hr,rfl⟩ := map_eq_ok h
  exact ⟨fun hf => hfault (.inl hf),r.1,r.2,hr,rfl⟩

/-- A coroutine leaves the register for good or for its pool, or it is not in a pool
although it is marked so and nothing happens. -/
inductive Released (s : Registry) (c : Co) : Registry → Prop
  | stays : Released s c s
  | freed {t : Registry} (h : unregister s c .freed=.ok t) : Released s c t
  | returned {t : Registry} {p : ℕ} {cp : CoroPool} (hc : (s.co c).cpool=some p)
      (hp : s.pools p=some cp) (h : unregister s c .idle=.ok t) : Released s c
        (putPool t p {cp with freelist := c::cp.freelist,activenum := cp.activenum-1})

/-- Whatever becomes of the pools, one coroutine is unregistered at most. -/
theorem released_unregister (h : Released s c t) : t=s ∨ ∃ life u pools,life≠.live ∧
    unregister s c life=.ok u ∧ t={u with pools := pools} := by
  cases h with
  | stays => exact .inl rfl
  | @freed t hu => exact .inr ⟨_,t,t.pools,by decide,hu,rfl⟩
  | @returned u p cp _ _ hu => exact .inr ⟨_,u,_,by decide,hu,rfl⟩

/-- `cp_return` releases its coroutine. -/
theorem released_of_cpReturn (h : cpReturn s c=.ok t) : Released s c t := by
  unfold cpReturn at h
  split_ifs at h
  split at h
  · cases h
    exact .stays
  next p hc =>
    split at h
    · cases h
    next cp hp =>
      obtain ⟨u,hu,rfl⟩ := map_eq_ok h
      exact .returned hc hp hu

/-- An exited coroutine is released. -/
theorem released_of_resumeExited (h : resumeExited s c=.ok t) : Released s c t := by
  unfold resumeExited at h
  split_ifs at h
  · exact released_of_cpReturn h
  · exact .freed h

/-- `dyco_asymcoro_free` releases what it finds under the cid, or does nothing. -/
theorem released_of_dycoAsymcoroFree {cid : ℤ} (h : dycoAsymcoroFree s cid=.ok t) :
    t=s ∨ ∃ c,htableFind s.cidCoMap cid=.ok (some c) ∧ Released s c t := by
  obtain ⟨r,hr,h⟩ := bind_eq_ok h
  cases r with
  | none =>
    cases h
    exact .inl rfl
  | some c =>
    dsimp only at h
    split_ifs at h
    · exact .inr ⟨c,hr,.freed h⟩
    · cases h
      exact .inl rfl

/-- `dyco_asymcpool_return` releases what it finds under the cid, or does nothing. -/
theorem released_of_dycoAsymcpoolReturn {cid : ℤ} (h : dycoAsymcpoolReturn s cid=.ok t) :
    t=s ∨ ∃ c,htableFind s.cidCoMap cid=.ok (some c) ∧ Released s c t := by
  obtain ⟨r,hr,h⟩ := bind_eq_ok h
  cases r with
  | none =>
    cases h
    exact .inl rfl
  | some c => exact .inr ⟨c,hr,released_of_cpReturn h⟩

/-- `coro_abort` releases one coroutine at most. -/
theorem released_of_endCoro (h : endCoro s c=.ok t) : ∃ d,Released s d t := by
  unfold endCoro at h
  split_ifs at h
  · rcases released_of_dycoAsymcpoolReturn h with rfl|⟨d,-,hd⟩
    · exact ⟨c,.stays⟩
    · exact ⟨d,hd⟩
  · exact ⟨c,released_of_cpReturn h⟩
  · rcases released_of_dycoAsymcoroFree h with rfl|⟨d,-,hd⟩
    · exact ⟨c,.stays⟩
    · exact ⟨d,hd⟩
  · exact ⟨c,.freed h⟩

/-- What a step without a fault has done, by whether it hands out a cid. -/
inductive Moves (s : Registry) : Bool → Registry → Prop
  | nothing {b : Bool} : Moves s b s
  | create {isasymmetric : Bool} {t : Registry} (h : createCoro s isasymmetric=.ok t) :
      Moves s true t
  | poolCreate {b : Bool} {totalsize : ℤ} {stacksize : ℕ} {isasymmetric : Bool} :
      Moves s b (cpCreate s totalsize stacksize isasymmetric)
  | obtain {p : ℕ} {cp : CoroPool} {c : Co} {rest : List Co} {isasymmetric : Bool} {t : Registry}
      (hp : s.pools p=some cp) (hl : cp.freelist=c::rest)
      (h : register (renew (putPool s p {cp with freelist := rest,activenum := cp.activenum+1}) c
        isasymmetric) c false=.ok t) : Moves s true t
  | exit {b : Bool} {c : Co} {t : Registry} (hc : (s.co c).life=.live) (h : Released s c t) :
      Moves s b t
  | asymRelease {b : Bool} {c : Co} {cid : ℤ} {t : Registry}
      (hc : htableFind s.cidCoMap cid=.ok (some c)) (h : Released s c t) : Moves s b t

/-- Every step without a fault is one of the moves. -/
theorem moves_of_step (h : step s a=some (.ok t)) : Moves s (registers s a) t := by
  have hreturn : ∀ {b cid},dycoAsymcpoolReturn s cid=.ok t → Moves s b t := by
    intro b cid h
    rcases released_of_dycoAsymcpoolReturn h with rfl|⟨c,hc,h⟩
    · exact .nothing
    · exact .asymRelease hc h
  cases a with
  | create isasymmetric => exact .create (Option.some.inj h)
  | poolCreate totalsize stacksize isasymmetric =>
    cases h
    exact .poolCreate
  | obtain p isasymmetric =>
    have h : cpObtain s p isasymmetric=.ok t := Option.some.inj h
    unfold cpObtain at h
    split at h
    · cases h
    next cp hp =>
      split_ifs at h with hnone
      · cases h
        exact .nothing
      · have hreg : registers s (.obtain p isasymmetric)=true := by
          simpa [registers,hp] using hnone
        rw [hreg]
        split at h
        · cases h
        next c rest hl => exact .obtain hp hl h
  | exit c =>
    simp only [step] at h
    split_ifs at h with hc
    exact .exit hc.1 (released_of_resumeExited (Option.some.inj h))
  | asymFree cid =>
    rcases released_of_dycoAsymcoroFree (Option.some.inj h) with rfl|⟨c,hc,h⟩
    · exact .nothing
    · exact .asymRelease hc h
  | asymReturn cid =>
    simp only [step] at h
    split at h
    · split_ifs at h
      exact hreturn (Option.some.inj h)
    · exact hreturn (Option.some.inj h)

/-- What the rounds of `cp_create` keep. -/
theorem cpCreate_invariant {totalsize : ℤ} {stacksize : ℕ} (inv : Registry → Prop) (hs : inv s)
    (hstart : inv {putPool s s.nextPool ⟨totalsize,0,stacksize,[]⟩ with nextPool := s.nextPool+1})
    (hadd : ∀ t p,inv t → inv (cpAdd p isasymmetric t)) :
    inv (cpCreate s totalsize stacksize isasymmetric) := by
  unfold cpCreate
  split_ifs
  · exact hs
  · generalize totalsize.toNat=k
    induction k with
    | zero => exact hstart
    | succ k ih =>
      rw [Function.iterate_succ_apply']
      exact hadd _ _ ih

/-! ## Invariants of all runs -/

/-- A coroutine that has a pool. -/
def Pooled (s : Registry) (c : Co) : Prop :=
  ∃ p cp,(s.co c).cpool=some p ∧ s.pools p=some cp

/-- What every coroutine can rely on when it is released. -/
structure Sane (s : Registry) : Prop where
  /-- The nodes of the table are allocated, each once. -/
  linked : ∃ leak,Linked leak s.cidCoMap
  /-- A live coroutine has a scheduler. -/
  sched : ∀ c,(s.co c).life=.live → (s.co c).sched=true
  /-- A coroutine that is marked as one of a pool has a pool. -/
  pooled : ∀ c,(s.co c).flagsIncoropool=true → Pooled s c
  /-- So do the coroutines in the freelists. -/
  free : ∀ p cp,s.pools p=some cp → ∀ c∈cp.freelist,Pooled s c
  /-- An object that was not handed out has none. -/
  unborn : ∀ c,s.nextCo ≤ c → (s.co c).cpool=none

/-- A new scheduler has neither coroutines nor pools. -/
theorem sane_newScheduler (schedId : ℕ) : Sane (newScheduler schedId) :=
  ⟨⟨0,linked_htableInit 0⟩,fun c hc => (by cases hc),fun c hc => (by cases hc),
    fun p cp hp => (by cases hp),fun _ _ => rfl⟩

/-- A pool gets another freelist. -/
theorem Sane.putPool (h : Sane s) (hf : ∀ c∈cp.freelist,Pooled s c) : Sane (putPool s p cp) := by
  have hmono : ∀ c,Pooled s c → Pooled (CoroutineRegistry.putPool s p cp) c := by
    rintro c ⟨q,cq,hc,hq⟩
    by_cases hqp : q=p
    · subst hqp
      exact ⟨q,cp,hc,Function.update_self ..⟩
    · exact ⟨q,cq,hc,(Function.update_of_ne hqp ..).trans hq⟩
  refine ⟨h.linked,h.sched,fun c hc => hmono c (h.pooled c hc),fun q cq hq c hc => hmono c ?_,
    h.unborn⟩
  change Function.update s.pools p (some cp) q=some cq at hq
  by_cases hqp : q=p
  · subst hqp
    rw [Function.update_self] at hq
    cases hq
    exact hf c hc
  · rw [Function.update_of_ne hqp] at hq
    exact h.free q cq hq c hc

/-- A record gets other values, but stays in its pool. -/
theorem Sane.update {r : Coro} (h : Sane s) (hsched : r.life=.live → r.sched=true)
    (hcpool : r.cpool=(s.co c).cpool) (hpooled : r.flagsIncoropool=true → Pooled s c) :
    Sane {s with co := Function.update s.co c r} := by
  have hsame : ∀ d,(Function.update s.co c r d).cpool=(s.co d).cpool := by
    intro d
    by_cases hd : d=c
    · subst hd
      rw [Function.update_self,hcpool]
    · rw [Function.update_of_ne hd]
  have hmono : ∀ d,Pooled s d → Pooled {s with co := Function.update s.co c r} d := by
    rintro d ⟨q,cq,hd,hq⟩
    exact ⟨q,cq,(hsame d).trans hd,hq⟩
  refine ⟨h.linked,fun d hd => ?_,fun d hd => hmono d ?_,
    fun q cq hq d hd => hmono d (h.free q cq hq d hd),fun d hd => (hsame d).trans (h.unborn d hd)⟩
  · change (Function.update s.co c r d).life=.live at hd
    change (Function.update s.co c r d).sched=true
    by_cases hdc : d=c
    · subst hdc
      rw [Function.update_self] at hd ⊢
      exact hsched hd
    · rw [Function.update_of_ne hdc] at hd ⊢
      exact h.sched d hd
  · change (Function.update s.co c r d).flagsIncoropool=true at hd
    by_cases hdc : d=c
    · subst hdc
      rw [Function.update_self] at hd
      exact hpooled hd
    · rw [Function.update_of_ne hdc] at hd
      exact h.pooled d hd

/-- The table and the counters get other values. -/
theorem Sane.recount (h : Sane s) (hco : t.co=s.co) (hpools : t.pools=s.pools)
    (hnext : t.nextCo=s.nextCo) (hlinked : ∃ leak,Linked leak t.cidCoMap) : Sane t := by
  have hmono : ∀ c,Pooled s c → Pooled t c := by
    rintro c ⟨q,cq,hc,hq⟩
    exact ⟨q,cq,hco ▸ hc,hpools ▸ hq⟩
  refine ⟨hlinked,fun c hc => ?_,fun c hc => hmono c ?_,fun q cq hq c hc => hmono c ?_,
    fun c hc => ?_⟩
  · rw [hco] at hc ⊢
    exact h.sched c hc
  · rw [hco] at hc
    exact h.pooled c hc
  · rw [hpools] at hq
    exact h.free q cq hq c hc
  · rw [hnext] at hc
    rw [hco]
    exact h.unborn c hc

/-- A new object, in a pool or not. -/
theorem Sane.newcoro {r : Coro} (h : Sane s) (hlife : r.life≠.live)
    (hpooled : r.flagsIncoropool=true → ∃ p cp,r.cpool=some p ∧ s.pools p=some cp) :
    Sane (newcoro s r) := by
  have hco : (CoroutineRegistry.newcoro s r).co s.nextCo=r := Function.update_self ..
  have hother : ∀ c≠s.nextCo,(CoroutineRegistry.newcoro s r).co c=s.co c :=
    fun c hc => Function.update_of_ne hc ..
  have hmono : ∀ c,Pooled s c → Pooled (CoroutineRegistry.newcoro s r) c := by
    rintro c ⟨q,cq,hc,hq⟩
    have hne : c≠s.nextCo := by
      rintro rfl
      cases (h.unborn _ le_rfl).symm.trans hc
    exact ⟨q,cq,(hother c hne).symm ▸ hc,hq⟩
  refine ⟨h.linked,fun c hc => ?_,fun c hc => ?_,fun q cq hq c hc => hmono c (h.free q cq hq c hc),
    fun c hc => ?_⟩
  · by_cases hne : c=s.nextCo
    · subst hne
      rw [hco] at hc
      exact absurd hc hlife
    · rw [hother c hne] at hc ⊢
      exact h.sched c hc
  · by_cases hne : c=s.nextCo
    · subst hne
      rw [hco] at hc
      obtain ⟨p,cp,hcp,hp⟩ := hpooled hc
      exact ⟨p,cp,hco.symm ▸ hcp,hp⟩
    · rw [hother c hne] at hc
      exact hmono c (h.pooled c hc)
  · have hlt : s.nextCo<c := hc
    rw [hother c (Nat.ne_of_gt hlt)]
    exact h.unborn c hlt.le

/-- A new member of a pool is sane. -/
theorem Sane.cpAdd (h : Sane s) : Sane (cpAdd p isasymmetric s) := by
  unfold CoroutineRegistry.cpAdd
  split
  · exact h
  next cp hp =>
    have hnew : Sane (CoroutineRegistry.newcoro s ⟨.idle,0,false,isasymmetric,true,some p⟩) :=
      h.newcoro (fun hl => by cases hl) fun _ => ⟨p,cp,rfl,hp⟩
    refine hnew.putPool fun c hc => ?_
    rcases List.mem_cons.mp hc with rfl|hc
    · refine ⟨p,cp,?_,hp⟩
      show (Function.update s.co s.nextCo _ s.nextCo).cpool=some p
      rw [Function.update_self]
    · exact hnew.free p cp hp c hc

/-- A new pool is sane. -/
theorem Sane.cpCreate {totalsize : ℤ} {stacksize : ℕ} (h : Sane s) :
    Sane (cpCreate s totalsize stacksize isasymmetric) := by
  have hput : Sane (CoroutineRegistry.putPool s s.nextPool ⟨totalsize,0,stacksize,[]⟩) :=
    h.putPool fun c hc => nomatch hc
  exact cpCreate_invariant Sane h (hput.recount rfl rfl rfl hput.linked) fun _ _ ht => ht.cpAdd

/-- The head of a freelist is taken out. -/
theorem Sane.take {rest : List Co} (h : Sane s) (hp : s.pools p=some cp)
    (hl : cp.freelist=c::rest) : Sane (renew (CoroutineRegistry.putPool s p {cp with
      freelist := rest,activenum := cp.activenum+1}) c isasymmetric) := by
  have hfree : ∀ d∈c::rest,Pooled s d := hl ▸ h.free p cp hp
  have hput : Sane (CoroutineRegistry.putPool s p
      {cp with freelist := rest,activenum := cp.activenum+1}) :=
    h.putPool fun d hd => hfree d (List.mem_cons_of_mem _ hd)
  refine hput.update (fun hlive => hput.sched c hlive) rfl fun _ => ?_
  obtain ⟨q,cq,hc,hq⟩ := hfree c List.mem_cons_self
  by_cases hqp : q=p
  · subst hqp
    exact ⟨q,_,hc,Function.update_self ..⟩
  · exact ⟨q,cq,hc,(Function.update_of_ne hqp ..).trans hq⟩

/-- A registration keeps the table linked. -/
theorem Sane.register (h : Sane s) (ht : register s c must=.ok t) : Sane t := by
  obtain ⟨ret,map,hmap,rfl⟩ := register_ok ht
  obtain ⟨leak,hlinked⟩ := h.linked
  obtain ⟨ret',map',hmap',hlinked'⟩ := hlinked.htableInsert s.nextCid (some c)
  rw [hmap] at hmap'
  cases hmap'
  have hrecord : Sane {s with
      co := Function.update s.co c {s.co c with life := .live,cid := s.nextCid,sched := true}} :=
    h.update (fun _ => rfl) rfl (h.pooled c)
  exact hrecord.recount rfl rfl rfl hlinked'

/-- A release keeps the table linked. -/
theorem Sane.unregister (h : Sane s) (hlife : life≠.live) (ht : unregister s c life=.ok t) :
    Sane t := by
  obtain ⟨-,ret,map,hmap,rfl⟩ := unregister_ok ht
  obtain ⟨leak,hlinked⟩ := h.linked
  have hrecord : Sane {s with co := Function.update s.co c {s.co c with life := life}} :=
    h.update (fun hl => absurd hl hlife) rfl (h.pooled c)
  exact hrecord.recount rfl rfl rfl ⟨leak,(hlinked.of_htableDelete hmap).1⟩

/-- The end of a coroutine keeps everything sane. -/
theorem Sane.released (h : Sane s) (ht : Released s c t) : Sane t := by
  cases ht with
  | stays => exact h
  | freed ht => exact h.unregister (by decide) ht
  | @returned u p cp hc hp hu =>
    have hsane := h.unregister (by decide) hu
    obtain ⟨-,ret,map,-,rfl⟩ := unregister_ok hu
    refine hsane.putPool fun d hd => ?_
    rcases List.mem_cons.mp hd with rfl|hd
    · refine ⟨p,cp,?_,hp⟩
      show (Function.update s.co d _ d).cpool=some p
      rw [Function.update_self]
      exact hc
    · exact hsane.free p cp hp d hd

/-- A release takes one entry out of the table, or none. -/
theorem Sane.map_released (h : Sane s) (ht : Released s c t) :
    t.cidCoMap=s.cidCoMap ∨ t.cidCoMap.count=s.cidCoMap.count-1 := by
  obtain ⟨leak,hlinked⟩ := h.linked
  rcases released_unregister ht with rfl|⟨life,u,pools,-,hu,rfl⟩
  · exact .inl rfl
  · obtain ⟨-,ret,map,hmap,rfl⟩ := unregister_ok hu
    exact (hlinked.of_htableDelete hmap).2.2.2

/-- Every move keeps everything sane. -/
theorem Sane.moves {b : Bool} (h : Sane s) (ht : Moves s b t) : Sane t := by
  cases ht with
  | nothing => exact h
  | create ht =>
    refine Sane.register (h.newcoro ?_ ?_) ht
    · exact fun hl => by cases hl
    · exact fun hl => by cases hl
  | poolCreate => exact h.cpCreate
  | obtain hp hl ht => exact (h.take hp hl).register ht
  | exit _ ht => exact h.released ht
  | asymRelease _ ht => exact h.released ht

/-- Every reachable state is sane. -/
theorem sane_of_reachable {cond : Registry → Act → Prop} (h : Reachable cond s) : Sane s := by
  obtain ⟨schedId,hruns⟩ := h
  exact hruns.invariant Sane (sane_newScheduler schedId) fun _ _ _ hi _ ha =>
    hi.moves (moves_of_step ha)

/-! ## The release of one coroutine -/

/-- The coroutine `c` is not live any more, and the table is as `htable_delete` of its
cid leaves it. -/
structure Ended (s : Registry) (c : Co) (t : Registry) : Prop where
  map : ∃ ret,htableDelete s.cidCoMap (s.co c).cid=.ok (ret,t.cidCoMap)
  count : t.coroCount=s.coroCount-1
  gone : (t.co c).life≠.live
  others : ∀ d≠c,t.co d=s.co d
  aborted : t.aborted=s.aborted
  sane : Sane t

/-- A live coroutine of a sane state can be released. -/
theorem unregister_spec (hs : Sane s) (hc : (s.co c).life=.live) (life : Life)
    (hlife : life≠.live) : ∃ t,unregister s c life=.ok t ∧ t.pools=s.pools ∧ Ended s c t := by
  obtain ⟨leak,hlinked⟩ := hs.linked
  obtain ⟨ret,map,hmap,-,-⟩ := hlinked.htableDelete (s.co c).cid
  have hok : ¬((s.co c).life=.freed ∨ (s.co c).sched=false) := by
    rw [hc,hs.sched c hc]
    decide
  have hdone : unregister s c life=.ok {s with
      coroCount := s.coroCount-1
      cidCoMap := map
      co := Function.update s.co c {s.co c with life := life}} := by
    rw [unregister,if_neg hok,hmap]
    rfl
  refine ⟨_,hdone,rfl,⟨ret,hmap⟩,rfl,?_,fun d hd => Function.update_of_ne hd ..,rfl,
    hs.unregister hlife hdone⟩
  show (Function.update s.co c _ c).life≠.live
  rwa [Function.update_self]

/-- A live coroutine of a pool can be returned to it. -/
theorem cpReturn_spec (hs : Sane s) (hc : (s.co c).life=.live)
    (hp : (s.co c).flagsIncoropool=true) : ∃ t,cpReturn s c=.ok t ∧ Ended s c t := by
  obtain ⟨p,cp,hcp,hpool⟩ := hs.pooled c hp
  obtain ⟨u,hu,-,hend⟩ := unregister_spec hs hc .idle (by decide)
  have hdone : cpReturn s c=.ok (putPool u p
      {cp with freelist := c::cp.freelist,activenum := cp.activenum-1}) := by
    have hok : (s.co c).life≠.freed := by
      rw [hc]
      decide
    simp only [cpReturn,if_neg hok,hcp,hpool,hu]
    rfl
  exact ⟨_,hdone,hend.map,hend.count,hend.gone,hend.others,hend.aborted,
    hs.released (released_of_cpReturn hdone)⟩

/-- `coro_abort` releases a live coroutine, which must be found in the table if it is
asymmetric. -/
theorem endCoro_spec (hs : Sane s) (hc : (s.co c).life=.live)
    (hfind : (s.co c).flagsAsymmetric=true → htableFind s.cidCoMap (s.co c).cid=.ok (some c)) :
    ∃ t,endCoro s c=.ok t ∧ Ended s c t := by
  have hok : (s.co c).life≠.freed := by
    rw [hc]
    decide
  obtain ⟨u,hu,-,hend⟩ := unregister_spec hs hc .freed (by decide)
  unfold endCoro
  rw [if_neg hok]
  by_cases hp : (s.co c).flagsIncoropool=true
  · obtain ⟨t,ht,hreturned⟩ := cpReturn_spec hs hc hp
    refine ⟨t,?_,hreturned⟩
    rw [if_pos hp]
    by_cases hasym : (s.co c).flagsAsymmetric=true
    · rw [if_pos hasym,dycoAsymcpoolReturn,hfind hasym]
      exact ht
    · rw [if_neg hasym]
      exact ht
  · refine ⟨u,?_,hend⟩
    rw [if_neg hp]
    by_cases hasym : (s.co c).flagsAsymmetric=true
    · rw [if_pos hasym,dycoAsymcoroFree,hfind hasym]
      show (if (s.co c).life=.freed then _ else if (s.co c).flagsAsymmetric=true then _ else _)=_
      rw [if_neg hok,if_pos hasym]
      exact hu
    · rw [if_neg hasym]
      exact hu

/-- The call of `coro_abort` is recorded. -/
theorem coroAbort_spec (hs : Sane s) (hc : (s.co c).life=.live)
    (hfind : (s.co c).flagsAsymmetric=true → htableFind s.cidCoMap (s.co c).cid=.ok (some c)) :
    ∃ t,coroAbort s (some c)=.ok t ∧ Ended {s with aborted := s.aborted++[c]} c t :=
  endCoro_spec (hs.recount rfl rfl rfl hs.linked) hc hfind

/-! ## Two coroutines in one slot -/

/-- The slot of a small id in the table that `dyco_schedule_create` makes. -/
theorem slot_natCast {n : ℕ} (hn : n<2^24) : slot (2^16-1) (n : ℤ)=n%2^16 := by
  have hlt : n<2^32 := hn.trans (by norm_num)
  have hmask : (2^16-1)%2^32=2^16-1 := by norm_num
  unfold slot
  rw [BitVec.ofInt_natCast,BitVec.toNat_and,BitVec.toNat_ofNat,BitVec.toNat_ofNat,
    Nat.mod_eq_of_lt hlt,hmask,Nat.and_two_pow_sub_one_eq_mod]

/-- The cids of the scheduler 0 are the values of its generator. -/
theorem cidOf_zero {g : ℕ} (hg : g<2^24) : cidOf 0 g=g := by
  have hlt : g<2^31 := hg.trans (by norm_num)
  rw [cidOf,Nat.zero_mod,Nat.zero_mul,Nat.zero_add,toInt_of_lt hlt]

/-- The table with the object 0 under the cid 1. -/
def loneTable : Table Co := putSlot (htableInit 0) 1 ⟨⟨1,some 0⟩,[]⟩ 1

/-- The lone entry is in the second slot. -/
theorem loneTable_of_ne {i : ℕ} (hi : i≠1) : loneTable.table i=Slot.cleared :=
  Function.update_of_ne hi ..

/-- The object 0 is the only live coroutine, and `k` cids were handed out after its
own. -/
structure Lone (k : ℕ) (s : Registry) : Prop where
  schedId : s.schedId=0
  gen : s.cidGen=k+1
  map : s.cidCoMap=loneTable
  first : s.co 0=⟨.live,1,true,false,false,none⟩
  count : s.coroCount=1
  next : 0<s.nextCo
  others : ∀ d≠0,(s.co d).life≠.live

/-- The cid that follows `k` others. -/
theorem Lone.nextCid {k : ℕ} (h : Lone k s) (hk : k+2<2^24) : s.nextCid=((k+2 : ℕ) : ℤ) := by
  rw [Registry.nextCid,h.schedId,h.gen,Nat.mod_eq_of_lt hk,cidOf_zero hk]

/-- The next creation meets the condition. -/
theorem Lone.fresh {k : ℕ} (h : Lone k s) (hk : k+2<2^24) (isasymmetric : Bool) :
    Fresh s (.create isasymmetric) := by
  intro _
  rw [Unused,h.nextCid hk]
  refine ⟨fun d hd => ?_,by omega⟩
  obtain rfl : d=0 := by
    by_contra hne
    exact h.others d hne hd
  rw [h.first]
  show (1 : ℤ)≠_
  omega

/-- A creation in a state with one coroutine, as far as the table goes. -/
theorem Lone.create {k : ℕ} {map : Table Co} (h : Lone k s) (hk : k+2<2^24)
    (hmap : htableInsert loneTable ((k+2 : ℕ) : ℤ) (some s.nextCo)=.ok (1,map)) :
    ∃ t,step s (.create false)=some (.ok t) ∧ t.schedId=0 ∧ t.cidGen=k+2 ∧ t.cidCoMap=map ∧
      t.coroCount=2 ∧ t.nextCo=s.nextCo+1 ∧
      t.co s.nextCo=⟨.live,((k+2 : ℕ) : ℤ),true,false,false,none⟩ ∧
      ∀ d≠s.nextCo,t.co d=s.co d := by
  have hinsert : htableInsert (newcoro s (newRecord false)).cidCoMap
      (newcoro s (newRecord false)).nextCid (some s.nextCo)=.ok (1,map) := by
    rw [← hmap,← h.nextCid hk,← h.map]
    rfl
  have hdone : createCoro s false=.ok (enroll (newcoro s (newRecord false)) s.nextCo map) := by
    rw [createCoro,register,hinsert]
    rfl
  refine ⟨_,congrArg some hdone,h.schedId,?_,rfl,?_,rfl,?_,fun d hd => ?_⟩
  · show (s.cidGen+1)%2^24=k+2
    rw [h.gen]
    exact Nat.mod_eq_of_lt hk
  · show s.coroCount+1=2
    rw [h.count]
    rfl
  · show Function.update (Function.update s.co s.nextCo (newRecord false)) s.nextCo _ s.nextCo=_
    rw [Function.update_self,← h.nextCid hk]
    show {Function.update s.co s.nextCo (newRecord false) s.nextCo with
      life := .live,cid := (newcoro s (newRecord false)).nextCid,sched := true}=_
    rw [Function.update_self]
    rfl
  · show Function.update (Function.update s.co s.nextCo (newRecord false)) s.nextCo _ d=_
    rw [Function.update_of_ne hd,Function.update_of_ne hd]

/-- A coroutine that is created and exits leaves no trace but in the generator. -/
theorem Lone.churn {k : ℕ} (h : Lone k s) (hk : k+2 ≤ 2^16) : ∃ t u,
    step s (.create false)=some (.ok t) ∧ step t (.exit s.nextCo)=some (.ok u) ∧ Lone (k+1) u := by
  have hsmall : k+2<2^24 := lt_of_le_of_lt hk (by norm_num)
  have hslot : slot loneTable.mask ((k+2 : ℕ) : ℤ)=(k+2)%2^16 := slot_natCast hsmall
  have hvacant : loneTable.table (slot loneTable.mask ((k+2 : ℕ) : ℤ))=Slot.cleared := by
    rw [hslot]
    exact loneTable_of_ne (by omega)
  obtain ⟨t,ht,hid,hgen,hmap,hcount,hnext,hnew,hold⟩ :=
    h.create hsmall (htableInsert_vacant hvacant (by decide) _)
  have hdelete : htableDelete t.cidCoMap (t.co s.nextCo).cid=.ok (0,loneTable) := by
    rw [hmap,hnew]
    exact htableDelete_inserted hvacant (by omega) _
  have hexit : step t (.exit s.nextCo)=some (unregister t s.nextCo .freed) := by
    simp [step,resumeExited,freecoro,hnew]
  have hdone : unregister t s.nextCo .freed=.ok {t with
      coroCount := t.coroCount-1
      cidCoMap := loneTable
      co := Function.update t.co s.nextCo {t.co s.nextCo with life := .freed}} := by
    have hok : ¬((t.co s.nextCo).life=.freed ∨ (t.co s.nextCo).sched=false) := by simp [hnew]
    rw [unregister,if_neg hok,hdelete]
    rfl
  refine ⟨t,_,ht,hexit.trans (congrArg some hdone),hid,hgen,rfl,?_,?_,?_,fun d hd => ?_⟩
  · show Function.update t.co s.nextCo _ 0=_
    rw [Function.update_of_ne h.next.ne,hold 0 h.next.ne,h.first]
  · show t.coroCount-1=1
    rw [hcount]
    rfl
  · show 0<t.nextCo
    rw [hnext]
    exact Nat.succ_pos _
  · show (Function.update t.co s.nextCo _ d).life≠.live
    by_cases hds : d=s.nextCo
    · subst hds
      rw [Function.update_self]
      show Life.freed≠.live
      decide
    · rw [Function.update_of_ne hds,hold d hds]
      exact h.others d hd

/-- The table with a second coroutine behind the first. -/
def sharedSlot (c : Co) : Slot Co := ⟨⟨1,some 0⟩,[⟨⟨((2^16+1 : ℕ) : ℤ),some c⟩,0⟩]⟩

/-- Two live coroutines, the object 0 and `c`, in one slot. -/
structure Shared (c : Co) (s : Registry) : Prop where
  map : s.cidCoMap=allocate (putSlot loneTable 1 (sharedSlot c) 2)
  count : s.coroCount=2
  first : s.co 0=⟨.live,1,true,false,false,none⟩
  second : s.co c=⟨.live,((2^16+1 : ℕ) : ℤ),true,false,false,none⟩

/-- The next coroutine falls into the slot of the first one. -/
theorem Lone.share (h : Lone (2^16-1) s) :
    ∃ t,step s (.create false)=some (.ok t) ∧ Shared s.nextCo t := by
  have hslot : slot loneTable.mask ((2^16-1+2 : ℕ) : ℤ)=1 := by
    rw [show loneTable.mask=2^16-1 from rfl,slot_natCast (by norm_num)]
    norm_num
  have hbucket : loneTable.table (slot loneTable.mask ((2^16-1+2 : ℕ) : ℤ))=⟨⟨1,some 0⟩,[]⟩ := by
    rw [hslot]
    rfl
  obtain ⟨t,ht,-,-,hmap,hcount,-,hnew,hold⟩ := h.create (by norm_num)
    (htableInsert_second hbucket (by decide) (by norm_num) (by decide) _)
  rw [hslot] at hmap
  exact ⟨t,ht,hmap,hcount,(hold 0 h.next.ne).trans h.first,hnew⟩

/-- The first creation of a scheduler. -/
theorem create_first (schedId : ℕ) : createCoro (newScheduler schedId) false=
    .ok (enroll (newcoro (newScheduler schedId) (newRecord false)) 0 (putSlot (htableInit 0)
      (slot (htableInit 0 : Table Co).mask (newScheduler schedId).nextCid)
      ⟨⟨(newScheduler schedId).nextCid,some 0⟩,[]⟩ 1)) := by
  have hfull : ((htableInit 0 : Table Co).mask : ℤ)*2≠(htableInit 0 : Table Co).count+1 := by
    decide
  have hinsert : htableInsert (newcoro (newScheduler schedId) (newRecord false)).cidCoMap
      (newcoro (newScheduler schedId) (newRecord false)).nextCid (some 0)=_ :=
    htableInsert_vacant rfl hfull _
  show register _ 0 true=_
  rw [register,hinsert]
  rfl

/-- The first coroutine of the scheduler 0. -/
theorem lone_first : Fresh (newScheduler 0) (.create false) ∧
    ∃ t,step (newScheduler 0) (.create false)=some (.ok t) ∧ Lone 0 t := by
  have hcid : (newScheduler 0).nextCid=1 := by
    show cidOf 0 ((0+1)%2^24)=1
    rw [Nat.mod_eq_of_lt (by norm_num),cidOf_zero (by norm_num)]
    rfl
  have hdone : createCoro (newScheduler 0) false=
      .ok (enroll (newcoro (newScheduler 0) (newRecord false)) 0 loneTable) := by
    have hslot : slot (htableInit 0 : Table Co).mask 1=1 := by decide
    rw [create_first,hcid,hslot]
    rfl
  refine ⟨fun _ => ⟨fun d hd => (by cases hd),by rw [hcid]; decide⟩,_,
    congrArg some hdone,rfl,?_,rfl,?_,rfl,Nat.one_pos,fun d hd => ?_⟩
  · show (0+1)%2^24=0+1
    norm_num
  · show Function.update (Function.update (newScheduler 0).co 0 (newRecord false)) 0 _ 0=_
    rw [Function.update_self,← hcid]
    rfl
  show (Function.update (Function.update (newScheduler 0).co 0 _) 0 _ d).life≠.live
  rw [Function.update_of_ne hd,Function.update_of_ne hd]
  show Life.unborn≠.live
  decide

/-- Coroutines come and go until `k` cids are used up. -/
theorem lone_reachable {k : ℕ} (hk : k<2^16) : ∃ s,Reachable Fresh s ∧ Lone k s := by
  induction k with
  | zero =>
    obtain ⟨hfresh,t,ht,hlone⟩ := lone_first
    exact ⟨t,⟨0,.tail .refl hfresh ht⟩,hlone⟩
  | succ k ih =>
    obtain ⟨s,⟨schedId,hruns⟩,hlone⟩ := ih (by omega)
    have hfresh : Fresh s (.create false) := hlone.fresh (by omega) false
    obtain ⟨t,u,ht,hu,hnext⟩ := hlone.churn (by omega)
    exact ⟨u,⟨schedId,(hruns.tail hfresh ht).tail (fun h => by cases h) hu⟩,hnext⟩

/-- A coroutine outlives 2^16-1 others, and the next one shares its slot. -/
theorem shared_reachable : ∃ c s,Reachable Fresh s ∧ Shared c s := by
  obtain ⟨s,⟨schedId,hruns⟩,hlone⟩ := lone_reachable (k := 2^16-1) (by norm_num)
  obtain ⟨t,ht,hshared⟩ := hlone.share
  exact ⟨s.nextCo,t,⟨schedId,hruns.tail (hlone.fresh (by norm_num) false) ht⟩,hshared⟩

end DycoCoroutine.CoroutineRegistry
