import DycoCoroutine.EventFd
import DycoCoroutine.RunInvariant
import DycoCoroutine.ScheduleState
import DycoCoroutine.SlottedMap

/-!
# Coroutine pools and the register of coroutines

The coroutine objects of one scheduler, as far as `cid_co_map`, `coro_count`, the
id generator and the pools are concerned: creation, exit, abort and release of
symmetric and asymmetric coroutines, and `dyco_coropool.c` with the callers that
are blocked in `cp_wait`. The ready queues and timers of the scheduler are left
out; a blocked caller may be resumed at any time. Allocations of the tables
succeed, and `cid_co_map` is the finite map of its entries in the order of their
chains, which it is until it is resized or given the cid -1.
-/

namespace DycoCoroutine.CoroutinePool

open ScheduleState RunInvariant EventFd SlottedMap

/-- The fields of `struct dyco_coroutine` that decide how it is released. -/
structure Coro where
  /-- What the allocator and the pools know about the object. -/
  life : Life
  /-- `cid` -/
  cid : ℤ
  /-- Whether `sched` is set. -/
  sched : Bool
  /-- COROUTINE_FLAGS_ASYMMETRIC -/
  flagsAsymmetric : Bool
  /-- COROUTINE_FLAGS_INCOROPOOL -/
  flagsIncoropool : Bool
  /-- `cpool` -/
  cpool : Option ℕ

/-- The fields of `struct dyco_schedule` that keep account of coroutines, and the
objects. -/
structure Register where
  /-- `sched_id` -/
  schedId : ℕ
  /-- `_cid_gen` -/
  cidGen : ℕ
  /-- `coro_count`, an unsigned int. -/
  coroCount : UInt32
  /-- `cid_co_map` -/
  cidCoMap : CoMap
  /-- The coroutine objects. -/
  co : Co → Coro
  /-- The next object the allocator hands out. -/
  nextCo : Co
  /-- The number of cids handed out so far. -/
  handedOut : ℕ
  /-- The number of cids handed out when an object got its own. -/
  bornAt : Co → ℕ

/-- `struct coroutinepool`, with an account of its objects. -/
structure Pool where
  /-- `totalsize` -/
  totalsize : ℤ
  /-- `activenum` -/
  activenum : ℤ
  /-- `freelist`, most recently returned first. -/
  freelist : List Co
  /-- The `notifyfd` of the nodes of `sublist`. -/
  sublist : List ℤ
  /-- The objects that `cp_create` and `cp_resize` have made. -/
  made : List Co
  /-- The objects that were obtained and not returned. -/
  out : List Co
  /-- The objects that were taken from the freelist and released. -/
  gone : List Co
  /-- The objects that were taken from the freelist and not released. -/
  leaked : List Co

/-- A call of `cp_obtain` that is blocked in `cp_wait`. -/
structure Waiter where
  /-- The calling coroutine. -/
  caller : Co
  /-- The pool. -/
  pool : ℕ
  /-- `timeout` -/
  timeout : ℤ
  /-- `isasymmetric` -/
  isasymmetric : Bool
  /-- The descriptor of the call. -/
  notifyfd : ℤ
  deriving DecidableEq

/-- A call that has returned. -/
inductive Reply
  /-- A coroutine was created. -/
  | create (cid : ℤ)
  /-- `cp_obtain` -/
  | obtain (caller : Co) (pool : ℕ) (timeout ret : ℤ)
  /-- `cp_destroy` -/
  | destroy (pool : ℕ) (ret : ℤ)
  deriving DecidableEq

/-- The register, the pools with their callers, and the descriptors of the
process. -/
structure World where
  /-- The coroutines. -/
  reg : Register
  /-- The pools. -/
  pools : ℕ → Option Pool
  /-- The next pool. -/
  nextPool : ℕ
  /-- The descriptor table. -/
  fds : Table
  /-- The callers blocked in `cp_wait`, in order of arrival. -/
  blocked : List Waiter
  /-- The calls that have returned, oldest first. -/
  log : List Reply

/-- The cid that is handed out next. -/
def Register.nextCid (s : Register) : ℤ := cidOf s.schedId ((s.cidGen+1)%2^24)

/-- A new object with this record. -/
def newcoro (s : Register) (r : Coro) : Register :=
  {s with nextCo := s.nextCo+1,co := Function.update s.co s.nextCo r}

/-- Give an object the next cid and enter it in `cid_co_map`, as every creation
and `cp_obtain` do. -/
def register (s : Register) (c : Co) : Register :=
  {s with
    cidGen := (s.cidGen+1)%2^24
    cidCoMap := enter cidSlot s.nextCid c s.cidCoMap
    coroCount := s.coroCount+1
    co := Function.update s.co c {s.co c with life := .live,cid := s.nextCid,sched := true}
    handedOut := s.handedOut+1
    bornAt := Function.update s.bornAt c (s.handedOut+1)}

/-- The record that `newcoro` leaves; `calloc` clears `cid` and `sched`. -/
def newRecord (isasymmetric : Bool) : Coro := ⟨.idle,0,false,isasymmetric,false,none⟩

/-- The creation of a coroutine outside pools. -/
def createCoro (s : Register) (isasymmetric : Bool) : Register :=
  register (newcoro s (newRecord isasymmetric)) s.nextCo

/-- `dyco_coroutine_create` -/
def dycoCoroutineCreate (s : Register) : Register := createCoro s false

/-- `dyco_coroutine_create_urgent`, which differs in the ready queue only. -/
def dycoCoroutineCreateUrgent (s : Register) : Register := createCoro s false

/-- `dyco_asymcoro_create` -/
def dycoAsymcoroCreate (s : Register) : Register := createCoro s true

/-- Leave the count and `cid_co_map` through `co->sched`, as every release does. -/
def unregister (s : Register) (c : Co) (life : Life) : Except Fault Register :=
  if (s.co c).life=.freed ∨ (s.co c).sched=false then .error .undefined
  else .ok {s with
    coroCount := s.coroCount-1
    cidCoMap := s.cidCoMap.erase (s.co c).cid
    co := Function.update s.co c {s.co c with life := life}}

/-- `freecoro` -/
def freecoro (s : Register) (c : Co) : Except Fault Register := unregister s c .freed

/-- `dyco_asymcoro_free`. The header defines NDEBUG, so that the `assert(0)` on a cid
that is not that of an asymmetric coroutine does nothing and the function returns. -/
def dycoAsymcoroFree (s : Register) (cid : ℤ) : Except Fault Register :=
  match s.cidCoMap.lookup cid with
  | none => .ok s
  | some c => if (s.co c).flagsAsymmetric then unregister s c .freed else .ok s

/-- A call returns. -/
def reply (w : World) (r : Reply) : World := {w with log := w.log++[r]}

/-- Replace a pool. -/
def putPool (w : World) (p : ℕ) (cp : Pool) : World :=
  {w with pools := Function.update w.pools p (some cp)}

theorem putPool_self (w : World) (p : ℕ) (cp : Pool) : (putPool w p cp).pools p=some cp :=
  Function.update_self ..

theorem putPool_of_ne {p q : ℕ} (h : q≠p) (w : World) (cp : Pool) :
    (putPool w p cp).pools q=w.pools q := Function.update_of_ne h ..

/-- Replace a pool, and notify and unlink its first waiting caller. -/
def notifyFirst (w : World) (p : ℕ) (cp : Pool) : Except Fault World :=
  match cp.sublist with
  | [] => .ok (putPool w p cp)
  | head::rest => match eventfdWrite w.fds head 1 with
    | none => .error .must
    | some fds => .ok (putPool {w with fds := fds} p {cp with sublist := rest})

/-- A new object at the head of the freelist. -/
def cpAdd (p : ℕ) (isasymmetric : Bool) (s : Register) (cp : Pool) : Register×Pool :=
  (newcoro s ⟨.idle,0,false,isasymmetric,true,some p⟩,
    {cp with freelist := s.nextCo::cp.freelist,made := s.nextCo::cp.made})

/-- The loop of `cp_create`. -/
def cpFill (p : ℕ) (isasymmetric : Bool) : ℕ → Register → Pool → Register×Pool
  | 0,s,cp => (s,cp)
  | n+1,s,cp => cpFill p isasymmetric n (cpAdd p isasymmetric s cp).1 (cpAdd p isasymmetric s cp).2

/-- `cp_create` -/
def cpCreate (w : World) (totalsize : ℤ) (isasymmetric : Bool) : World :=
  if totalsize≤0 then w
  else
    let filled := cpFill w.nextPool isasymmetric totalsize.toNat w.reg ⟨totalsize,0,[],[],[],[],[],[]⟩
    {putPool {w with reg := filled.1} w.nextPool filled.2 with nextPool := w.nextPool+1}

/-- One round of the loop of `cp_resize` that increases a pool. -/
def cpGrow (p : ℕ) (isasymmetric : Bool) (w : World) : Except Fault World :=
  match w.pools p with
  | none => .error .undefined
  | some cp =>
    let added := cpAdd p isasymmetric w.reg cp
    notifyFirst {w with reg := added.1} p added.2

/-- The account of a pool whose first idle coroutine was taken to release it. -/
def takeFirst (s : Register) (cp : Pool) (c : Co) (rest : List Co) : Pool :=
  if (s.co c).life=.freed then {cp with freelist := rest,gone := c::cp.gone}
  else {cp with freelist := rest,leaked := c::cp.leaked}

/-- One round of the loops of `cp_resize` and `cp_destroy` that release idle
coroutines. -/
def cpDrop (p : ℕ) (isasymmetric : Bool) (w : World) : Except Fault World :=
  match w.pools p with
  | none => .error .undefined
  | some cp => match cp.freelist with
    | [] => .error .undefined
    | c::rest => do
      let reg ← (if isasymmetric then freecoro w.reg c else dycoAsymcoroFree w.reg (w.reg.co c).cid)
      return putPool {w with reg := reg} p (takeFirst reg cp c rest)

/-- `cp->totalsize = newsize` -/
def setTotalsize (p : ℕ) (newsize : ℤ) (w : World) : World :=
  let pool := (w.pools p).map fun cp => {cp with totalsize := newsize}
  {w with pools := Function.update w.pools p pool}

/-- The number of rounds of the loop of `cp_resize` that decreases a pool. -/
def dropCount (cp : Pool) (newsize : ℤ) : ℕ :=
  (if cp.activenum≤newsize then cp.totalsize-newsize else cp.totalsize-cp.activenum).toNat

/-- `cp_resize` -/
def cpResize (w : World) (p : ℕ) (newsize : ℤ) (isasymmetric : Bool) : Except Fault World :=
  match w.pools p with
  | none => .error .undefined
  | some cp =>
    if newsize=cp.totalsize then .ok w
    else if cp.totalsize<newsize then
      (times (cpGrow p isasymmetric) (newsize-cp.totalsize).toNat w).map (setTotalsize p newsize)
    else (times (cpDrop p isasymmetric) (dropCount cp newsize) w).map (setTotalsize p newsize)

/-- `cp_destroy` -/
def cpDestroy (w : World) (p : ℕ) (isasymmetric : Bool) : Except Fault World :=
  match w.pools p with
  | none => .error .undefined
  | some cp =>
    if cp.activenum≠0 then .ok (reply w (.destroy p (-1)))
    else (times (cpDrop p isasymmetric) cp.totalsize.toNat w).map fun w =>
      reply {w with pools := Function.update w.pools p none} (.destroy p 0)

/-- The status word that `cp_obtain` gives a coroutine. -/
def renew (s : Register) (c : Co) (isasymmetric : Bool) : Register :=
  let record := {s.co c with flagsAsymmetric := isasymmetric,flagsIncoropool := true}
  {s with co := Function.update s.co c record}

/-- `cp_obtain` from the point where it takes a coroutine. -/
def cpTake (w : World) (caller : Co) (p : ℕ) (cp : Pool) (timeout : ℤ) (isasymmetric : Bool) :
    Except Fault World :=
  match cp.freelist with
  | [] => .error .undefined
  | c::rest =>
    .ok (reply (putPool {w with reg := register (renew w.reg c isasymmetric) c} p {cp with
      freelist := rest
      activenum := cp.activenum+1
      out := c::cp.out}) (.obtain caller p timeout w.reg.nextCid))

/-- `cp_obtain` from the point where `cp_wait` returns the number of available
coroutines. -/
def cpObtainRest (w : World) (caller : Co) (p : ℕ) (cp : Pool) (timeout : ℤ) (isasymmetric : Bool) :
    Except Fault World :=
  if cp.totalsize-cp.activenum≤0 then
    .ok (reply w (.obtain caller p timeout (cp.totalsize-cp.activenum)))
  else cpTake w caller p cp timeout isasymmetric

/-- `cp_obtain` up to its return or to the `yield` of `cp_wait`, with the
descriptor that `eventfd` returns and the outcome of `malloc`. A failure of
`malloc` leaves the descriptor open. -/
def cpObtain (w : World) (caller : Co) (context : Context) (p : ℕ) (timeout : ℤ)
    (isasymmetric : Bool) (fd : ℤ) (allocated : Bool) : Except Fault World :=
  match w.pools p with
  | none => .error .undefined
  | some cp =>
    if 0<cp.totalsize-cp.activenum ∨ timeout=0 then cpObtainRest w caller p cp timeout isasymmetric
    else if context≠.symmetric then .error .must
    else if allocated then
      .ok {putPool {w with fds := openEvent w.fds fd} p {cp with sublist := cp.sublist++[fd]} with
        blocked := w.blocked++[⟨caller,p,timeout,isasymmetric,fd⟩]}
    else .ok (reply {w with fds := openEvent w.fds fd} (.obtain caller p timeout 0))

/-- The rest of `cp_wait` and of `cp_obtain` after `yield`. An expired call
unlinks its node; the list must not be empty then. -/
def afterYield (w : World) (v : Waiter) : Except Fault World :=
  match w.pools v.pool with
  | none => .error .undefined
  | some cp =>
    let left := {w with
      fds := close w.fds v.notifyfd
      blocked := w.blocked.filter fun u => u.notifyfd≠v.notifyfd}
    if (eventfdRead w.fds v.notifyfd).isSome then
      cpObtainRest left v.caller v.pool cp v.timeout v.isasymmetric
    else if cp.sublist=[] then .error .undefined
    else
      let cp := {cp with sublist := cp.sublist.erase v.notifyfd}
      cpObtainRest (putPool left v.pool cp) v.caller v.pool cp v.timeout v.isasymmetric

/-- `cp_return` -/
def cpReturn (w : World) (c : Co) : Except Fault World :=
  match (w.reg.co c).cpool with
  | none => .ok w
  | some p => match w.pools p with
    | none => .error .undefined
    | some cp => do
      let reg ← unregister w.reg c .idle
      notifyFirst {w with reg := reg} p {cp with
        freelist := c::cp.freelist
        activenum := cp.activenum-1
        out := cp.out.erase c}

/-- `dyco_asymcpool_return` -/
def dycoAsymcpoolReturn (w : World) (cid : ℤ) : Except Fault World :=
  match w.reg.cidCoMap.lookup cid with
  | none => .ok w
  | some c => cpReturn w c

/-- An operation on the register alone. -/
def onRegister (w : World) (r : Except Fault Register) : Except Fault World :=
  r.map fun reg => {w with reg := reg}

/-- `coro_abort` -/
def coroAbort (w : World) (c : Co) : Except Fault World :=
  if (w.reg.co c).flagsIncoropool then
    if (w.reg.co c).flagsAsymmetric then dycoAsymcpoolReturn w (w.reg.co c).cid else cpReturn w c
  else if (w.reg.co c).flagsAsymmetric then onRegister w (dycoAsymcoroFree w.reg (w.reg.co c).cid)
  else onRegister w (freecoro w.reg c)

/-- The end of `resume` for a killed coroutine: `htable_delete_with_freecb` on
`cid_co_map` with `coro_abort`, which has deleted the node by then. A node behind the
head of a slot was copied into the head and freed; it is copied and freed again. -/
def resumeKilled (w : World) (c : Co) : Except Fault World :=
  match w.reg.cidCoMap.lookup (w.reg.co c).cid with
  | none => .ok w
  | some d =>
    if heads cidSlot w.reg.cidCoMap (w.reg.co c).cid then .error .undefined
    else (coroAbort w d).map fun t =>
      {t with reg := {t.reg with cidCoMap := t.reg.cidCoMap.erase (w.reg.co c).cid}}

/-- The end of `resume` for a coroutine that has exited. -/
def resumeExited (w : World) (c : Co) : Except Fault World :=
  if (w.reg.co c).flagsIncoropool then cpReturn w c else onRegister w (freecoro w.reg c)

/-- What can happen next. -/
inductive Act
  /-- `dyco_coroutine_create` -/
  | create
  /-- `dyco_coroutine_create_urgent` -/
  | createUrgent
  /-- `dyco_asymcoro_create` -/
  | asymCreate
  /-- A symmetric coroutine exits. -/
  | exit (c : Co)
  /-- A symmetric coroutine is killed. -/
  | abort (c : Co)
  /-- `dyco_asymcoro_free` -/
  | asymFree (cid : ℤ)
  /-- `cp_create` -/
  | poolCreate (totalsize : ℤ) (isasymmetric : Bool)
  /-- `cp_obtain` -/
  | obtain (caller : Co) (context : Context) (p : ℕ) (timeout : ℤ) (isasymmetric : Bool) (fd : ℤ)
      (allocated : Bool)
  /-- The scheduler resumes a blocked caller. -/
  | resume (caller : Co)
  /-- `dyco_asymcpool_return` -/
  | asymReturn (cid : ℤ)
  /-- `cp_resize` -/
  | resize (p : ℕ) (newsize : ℤ) (isasymmetric : Bool)
  /-- `cp_destroy` -/
  | destroy (p : ℕ) (isasymmetric : Bool)
  /-- The program opens a descriptor of its own. -/
  | openOther (fd : ℤ)
  /-- The program closes a descriptor of its own. -/
  | closeOther (fd : ℤ)

/-- A symmetric coroutine that is not blocked in `cp_wait`. -/
def Active (w : World) (c : Co) : Prop :=
  (w.reg.co c).life=.live ∧ (w.reg.co c).flagsAsymmetric=false ∧ c∉w.blocked.map Waiter.caller

instance (w : World) (c : Co) : Decidable (Active w c) := inferInstanceAs (Decidable (_ ∧ _ ∧ _))

/-- One step of the coroutines and their pools. Only asymmetric coroutines are
returned by their cid. -/
def step (w : World) : Act → Option (Except Fault World)
  | .create => some (.ok (reply {w with reg := dycoCoroutineCreate w.reg} (.create w.reg.nextCid)))
  | .createUrgent =>
    some (.ok (reply {w with reg := dycoCoroutineCreateUrgent w.reg} (.create w.reg.nextCid)))
  | .asymCreate => some (.ok (reply {w with reg := dycoAsymcoroCreate w.reg} (.create w.reg.nextCid)))
  | .exit c => if Active w c then some (resumeExited w c) else none
  | .abort c => if Active w c then some (resumeKilled w c) else none
  | .asymFree cid => some (onRegister w (dycoAsymcoroFree w.reg cid))
  | .poolCreate totalsize isasymmetric => some (.ok (cpCreate w totalsize isasymmetric))
  | .obtain caller context p timeout isasymmetric fd allocated =>
    if w.fds fd=none ∧ (context=.symmetric → Active w caller) then
      some (cpObtain w caller context p timeout isasymmetric fd allocated)
    else none
  | .resume caller =>
    match w.blocked.find? fun v => v.caller=caller with
    | some v => some (afterYield w v)
    | none => none
  | .asymReturn cid =>
    if (w.reg.cidCoMap.lookup cid).all fun c => (w.reg.co c).flagsAsymmetric then
      some (dycoAsymcpoolReturn w cid)
    else none
  | .resize p newsize isasymmetric => some (cpResize w p newsize isasymmetric)
  | .destroy p isasymmetric => some (cpDestroy w p isasymmetric)
  | .openOther fd =>
    if w.fds fd=none then some (.ok {w with fds := Function.update w.fds fd (some .other)}) else none
  | .closeOther fd =>
    if w.fds fd=some .other then some (.ok {w with fds := close w.fds fd}) else none

/-- What a step has done, with the guard that it has passed. -/
inductive Happens (w : World) : Act → World → Prop
  | create : Happens w .create
      (reply {w with reg := dycoCoroutineCreate w.reg} (.create w.reg.nextCid))
  | createUrgent : Happens w .createUrgent
      (reply {w with reg := dycoCoroutineCreateUrgent w.reg} (.create w.reg.nextCid))
  | asymCreate : Happens w .asymCreate
      (reply {w with reg := dycoAsymcoroCreate w.reg} (.create w.reg.nextCid))
  | exit {c : Co} {t : World} (hactive : Active w c) (h : resumeExited w c=.ok t) :
      Happens w (.exit c) t
  | abort {c : Co} {t : World} (hactive : Active w c) (h : resumeKilled w c=.ok t) :
      Happens w (.abort c) t
  | asymFree {cid : ℤ} {t : World} (h : onRegister w (dycoAsymcoroFree w.reg cid)=.ok t) :
      Happens w (.asymFree cid) t
  | poolCreate {totalsize : ℤ} {isasymmetric : Bool} :
      Happens w (.poolCreate totalsize isasymmetric) (cpCreate w totalsize isasymmetric)
  | obtain {caller : Co} {context : Context} {p : ℕ} {timeout : ℤ} {isasymmetric : Bool} {fd : ℤ}
      {allocated : Bool} {t : World} (hfd : w.fds fd=none)
      (hactive : context=.symmetric → Active w caller)
      (h : cpObtain w caller context p timeout isasymmetric fd allocated=.ok t) :
      Happens w (.obtain caller context p timeout isasymmetric fd allocated) t
  | resume {caller : Co} {v : Waiter} {t : World}
      (hv : (w.blocked.find? fun u => u.caller=caller)=some v) (h : afterYield w v=.ok t) :
      Happens w (.resume caller) t
  | asymReturn {cid : ℤ} {t : World} (h : dycoAsymcpoolReturn w cid=.ok t) :
      Happens w (.asymReturn cid) t
  | resize {p : ℕ} {newsize : ℤ} {isasymmetric : Bool} {t : World}
      (h : cpResize w p newsize isasymmetric=.ok t) : Happens w (.resize p newsize isasymmetric) t
  | destroy {p : ℕ} {isasymmetric : Bool} {t : World} (h : cpDestroy w p isasymmetric=.ok t) :
      Happens w (.destroy p isasymmetric) t
  | openOther {fd : ℤ} (hfd : w.fds fd=none) :
      Happens w (.openOther fd) {w with fds := Function.update w.fds fd (some .other)}
  | closeOther {fd : ℤ} (hfd : w.fds fd=some .other) :
      Happens w (.closeOther fd) {w with fds := close w.fds fd}

theorem happens_of_step {w t : World} {a : Act} (ha : step w a=some (.ok t)) : Happens w a t := by
  cases a with
  | create => cases ha; exact .create
  | createUrgent => cases ha; exact .createUrgent
  | asymCreate => cases ha; exact .asymCreate
  | exit c =>
    simp only [step] at ha
    split_ifs at ha with hactive
    exact .exit hactive (Option.some.inj ha)
  | abort c =>
    simp only [step] at ha
    split_ifs at ha with hactive
    exact .abort hactive (Option.some.inj ha)
  | asymFree cid => exact .asymFree (Option.some.inj ha)
  | poolCreate totalsize isasymmetric => cases ha; exact .poolCreate
  | obtain caller context p timeout isasymmetric fd allocated =>
    simp only [step] at ha
    split_ifs at ha with hguard
    exact .obtain hguard.1 hguard.2 (Option.some.inj ha)
  | resume caller =>
    simp only [step] at ha
    split at ha
    next v hv => exact .resume hv (Option.some.inj ha)
    · cases ha
  | asymReturn cid =>
    simp only [step] at ha
    split_ifs at ha
    exact .asymReturn (Option.some.inj ha)
  | resize p newsize isasymmetric => exact .resize (Option.some.inj ha)
  | destroy p isasymmetric => exact .destroy (Option.some.inj ha)
  | openOther fd =>
    simp only [step] at ha
    split_ifs at ha with hfd
    cases ha
    exact .openOther hfd
  | closeOther fd =>
    simp only [step] at ha
    split_ifs at ha with hfd
    cases ha
    exact .closeOther hfd

/-- A new scheduler without coroutines, pools and descriptors. -/
def newScheduler (schedId : ℕ) : World :=
  ⟨⟨schedId,0,0,∅,fun _ => ⟨.unborn,0,false,false,false,none⟩,0,0,fun _ => 0⟩,fun _ => none,0,
    fun _ => none,[],[]⟩

end DycoCoroutine.CoroutinePool
