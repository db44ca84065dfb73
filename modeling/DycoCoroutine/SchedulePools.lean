import DycoCoroutine.CoroutineCount
import DycoCoroutine.PoolClients
import DycoCoroutine.ScheduleAbort

/-!
# The books of the scheduler as the machine of the pools

The machine of the pools, left to symmetric coroutines and to callers that do not wait,
does to its register and pools what the scheduler does to its books. A step of the
scheduler that leaves the books alone is no step of the pools. A disciplined run that
keeps the names of coroutines and pools apart is thereby, up to the abort of the
scheduler, a run of the pools, and what holds in all of those holds of the scheduler: its
`coro_count` is exact.
-/

namespace DycoCoroutine.SchedulePools

open ScheduleState ScheduleOps ScheduleRun ScheduleControl RunInvariant SlottedMap
open ScheduleEffect CoroutineHops
open CoroutinePool (Coro World Register)
open PoolClients (Serves Adds)
open CoroutineCount (Fresh registers releasesNoIdle liveCoros exact_of_runs)

variable {s t u : Sched} {b : Books} {r : Register} {w : World} {c : Co} {n p : ℕ} {urgent : Bool}

/-- The record of a symmetric coroutine agrees with its identity. -/
structure Matches (i : Life×Option ℕ×ℤ×Bool) (q : Coro) : Prop where
  life : q.life=i.1
  cpool : q.cpool=i.2.1
  cid : q.cid=i.2.2.1
  flagsIncoropool : q.flagsIncoropool=i.2.2.2
  flagsAsymmetric : q.flagsAsymmetric=false
  sched : i.1=.live → q.sched=true

/-- One record is replaced on both sides. -/
theorem matches_update {f : Co → Life×Option ℕ×ℤ×Bool} {g : Co → Coro}
    {i : Life×Option ℕ×ℤ×Bool} {q : Coro} (h : ∀ d,Matches (f d) (g d)) (hq : Matches i q)
    (d : Co) : Matches (Function.update f c i d) (Function.update g c q d) := by
  by_cases hd : d=c
  · subst hd
    simpa using hq
  · simpa [hd] using h d

/-- The register agrees with the books. -/
structure Agrees (b : Books) (r : Register) : Prop where
  tables : (r.schedId,r.cidGen,r.coroCount,r.cidCoMap,r.nextCo)=
    (b.schedId,b.cidGen,b.coroCount,b.cidCoMap,b.nextCo)
  co : ∀ c,Matches (b.co c) (r.co c)

/-- The two have the same entries. -/
theorem Agrees.cidCoMap (h : Agrees b r) : r.cidCoMap=b.cidCoMap :=
  congrArg (fun x => x.2.2.2.1) h.tables

/-- The two allocate the same object next. -/
theorem Agrees.nextCo (h : Agrees b r) : r.nextCo=b.nextCo :=
  congrArg (fun x => x.2.2.2.2) h.tables

/-- The two hand out the same cid next. -/
theorem Agrees.cid_eq (h : Agrees (books s) r) : r.nextCid=nextCid s := by
  have hid : r.schedId=s.schedId := congrArg (fun x => x.1) h.tables
  have hgen : r.cidGen=s.cidGen := congrArg (fun x => x.2.1) h.tables
  rw [Register.nextCid,nextCid,hid,hgen]

/-- A record is replaced on both sides. -/
theorem Agrees.setCo {f : Coroutine → Coroutine} {q : Coro} (h : Agrees (books s) r)
    (hq : Matches (identity (f (s.co c))) q) :
    Agrees (books (s.setCo c f)) {r with co := Function.update r.co c q} := by
  rw [books_setCo]
  exact ⟨h.tables,matches_update h.co hq⟩

/-- `newcoro` on both sides. -/
theorem Agrees.created {record : Coroutine} {q : Coro} (h : Agrees (books s) r)
    (hq : Matches (identity record) q) :
    Agrees (books (({s with nextCo := s.nextCo+1}).setCo s.nextCo fun _ => record))
      (CoroutinePool.newcoro r q) := by
  have hnext : Agrees (books {s with nextCo := s.nextCo+1}) {r with nextCo := r.nextCo+1} :=
    ⟨congrArg (fun x => (x.1,x.2.1,x.2.2.1,x.2.2.2.1,x.2.2.2.2+1)) h.tables,h.co⟩
  have hco : Function.update r.co r.nextCo q=Function.update r.co s.nextCo q :=
    congrArg (Function.update r.co · q) h.nextCo
  rw [CoroutinePool.newcoro,hco]
  exact hnext.setCo hq

/-- A live coroutine gets a cid and an entry on both sides, whatever they are. -/
theorem Agrees.entered (h : Agrees (books s) r) (hl : (s.co c).life=.live) (k : ℤ) (g : ℕ)
    (map : CoMap) (n : UInt32) (m : ℕ) (bornAt : Co → ℕ) :
    Agrees (books (({s with cidGen := g,cidCoMap := map,coroCount := n}).setCo c fun x =>
      {x with cid := k})) {r with
        cidGen := g, cidCoMap := map, coroCount := n, handedOut := m, bornAt := bornAt
        co := Function.update r.co c {r.co c with life := .live,cid := k,sched := true}} := by
  have hc := h.co c
  rw [books_setCo]
  refine ⟨?_,matches_update h.co ⟨hl.symm,hc.cpool,rfl,hc.flagsIncoropool,hc.flagsAsymmetric,
    fun _ => rfl⟩⟩
  exact congrArg (fun x => (x.1,g,n,map,x.2.2.2.2)) h.tables

/-- The end that creation and `cp_obtain` share, on both sides. -/
theorem Agrees.enrolled (h : Agrees (books s) r) (hl : (s.co c).life=.live)
    (ht : enroll s c urgent=.ok t) :
    Agrees (books t) (CoroutinePool.register r c) ∧ (books t).pools=s.pools := by
  obtain ⟨u,hu,ht⟩ := bind_eq_ok ht
  cases ht
  rw [(queueNew_spec u c urgent).1.books]
  unfold register at hu
  split_ifs at hu
  cases hu
  have hgen : r.cidGen=s.cidGen := congrArg (fun x => x.2.1) h.tables
  have hcount : r.coroCount=s.coroCount := congrArg (fun x => x.2.2.1) h.tables
  have hmap : r.cidCoMap=s.cidCoMap := h.cidCoMap
  rw [CoroutinePool.register,h.cid_eq,hgen,hcount,hmap]
  exact ⟨h.entered hl ..,rfl⟩

/-- A live coroutine is released on both sides. -/
theorem Agrees.release {f : Coroutine → Coroutine} {life : Life} (h : Agrees (books s) r)
    (hl : (s.co c).life=.live) (hf : ∀ x,identity (f x)=(life,x.cpool,x.cid,x.flagsIncoropool))
    (hu : releaseCoro s c=.ok u) :
    ∃ r',CoroutinePool.unregister r c life=.ok r' ∧ Agrees (books (u.setCo c f)) r' ∧
      u.pools=s.pools := by
  have hc := h.co c
  have hguard : ¬((r.co c).life=.freed ∨ (r.co c).sched=false) := by
    rw [hc.life,hc.sched hl]
    simp [books,identity,hl]
  obtain ⟨map,fds,set,b,rfl,-⟩ := releaseCoro_cases hu
  refine ⟨_,if_neg hguard,?_,rfl⟩
  rw [Sched.setCo_setCo]
  have htables := congrArg (fun x => (x.1,x.2.1,x.2.2.1-1,x.2.2.2.1.erase (s.co c).cid,x.2.2.2.2))
    h.tables
  refine Agrees.setCo (r := {r with
    coroCount := r.coroCount-1
    cidCoMap := r.cidCoMap.erase (r.co c).cid}) ⟨?_,h.co⟩ ?_
  · rw [hc.cid]
    exact htables
  · rw [hf]
    exact ⟨rfl,hc.cpool,hc.cid,hc.flagsIncoropool,hc.flagsAsymmetric,fun _ => hc.sched hl⟩

/-! ## Pools -/

/-- The machine of the pools is in the state of the books, where the pools have been given
consecutive names up to `n`. -/
structure Mirrors (n : ℕ) (b : Books) (w : World) : Prop where
  serves : Serves (Agrees b) b.pools n w
  names : ∀ q,b.pools q=none ↔ n≤q

/-- The register changes, and the pools do not. -/
theorem Mirrors.setReg {b' : Books} (h : Mirrors n b w) (hagrees : Agrees b' r)
    (hpools : b'.pools=b.pools) : Mirrors n b' {w with reg := r} := by
  constructor <;> rw [hpools]
  exacts [h.serves.setReg hagrees,h.names]

/-- A pool changes. -/
theorem Mirrors.setPool {b' : Books} {cp cp' : CoroPool} (h : Mirrors n b w)
    (hp : b.pools p=some cp) (hpools : b'.pools=Function.update b.pools p (some cp'))
    {w' : World} (hs : Serves (Agrees b') (Function.update b.pools p (some cp')) n w') :
    Mirrors n b' w' := by
  constructor <;> rw [hpools]
  · exact hs
  · intro q
    rw [← h.names]
    by_cases hq : q=p <;> simp [hq,hp]

/-- `dyco_coroutine_create` on both sides. -/
theorem Mirrors.create (h : Mirrors n (books s) w) (ht : dycoCoroutineCreate s urgent=.ok t) :
    Mirrors n (books t) {w with reg := CoroutinePool.dycoCoroutineCreate w.reg} := by
  have hnext := h.serves.agrees.nextCo
  have hnew : Agrees (books (newcoro s .live).2)
      (CoroutinePool.newcoro w.reg ⟨.live,0,true,false,false,none⟩) :=
    h.serves.agrees.created ⟨rfl,rfl,rfl,rfl,rfl,fun _ => rfl⟩
  obtain ⟨hagrees,hpools⟩ := hnew.enrolled (by simp [newcoro,newRecord]) ht
  -- the registration overwrites what the two sides say about the life of a new object
  have heq : CoroutinePool.register (CoroutinePool.newcoro w.reg ⟨.live,0,true,false,false,none⟩)
      s.nextCo=CoroutinePool.dycoCoroutineCreate w.reg := by
    rw [show s.nextCo=w.reg.nextCo from hnext.symm]
    simp [CoroutinePool.dycoCoroutineCreate,CoroutinePool.createCoro,CoroutinePool.register,
      CoroutinePool.newcoro,CoroutinePool.newRecord,Register.nextCid]
  exact h.setReg (heq ▸ hagrees) hpools

/-- One round of the loop of `cp_create` on both sides. -/
theorem adds_cpAdd (p stacksize : ℕ) : Adds (fun s => Agrees (books s)) Sched.pools
    (fun s => cpAdd s p stacksize) p false := by
  intro s r cp h hp
  have hrecord : Matches (identity (pooledRecord s.pageSize p stacksize))
      ⟨.idle,0,false,false,true,some p⟩ := by
    unfold pooledRecord
    dsimp only
    split_ifs <;> exact ⟨rfl,rfl,rfl,rfl,rfl,by simp [identity,newRecord]⟩
  have hnew := h.created hrecord
  refine ⟨⟨hnew.tables,fun d => ?_⟩,?_⟩
  · have hd := hnew.co d
    by_cases hc : d=s.nextCo <;> simpa [books,cpAdd,newcoro,hc] using hd
  · rw [h.nextCo]
    simp [cpAdd,newcoro,Sched.setPool,Sched.setCo,books,hp]

/-- `cp_create` on both sides, if the pool gets the next name. -/
theorem Mirrors.poolCreate (totalsize : ℤ) (stacksize : ℕ) (h : Mirrors n (books s) w)
    (hp : s.pools p=none) (hnum : ∀ q<p,s.pools q≠none) :
    ∃ m,Mirrors m (books (cpCreate s p totalsize stacksize))
      (CoroutinePool.cpCreate w totalsize false) := by
  have hname : n=p := le_antisymm ((h.names p).mp hp)
    (not_lt.mp fun hlt => hnum n hlt ((h.names n).mpr le_rfl))
  have hfill : ∀ k s,cpFill p stacksize k s=(fun s => cpAdd s p stacksize)^[k] s := fun k => by
    induction k with
    | zero => exact fun _ => rfl
    | succ k ih => exact fun s => ih _
  subst hname
  unfold cpCreate
  split_ifs with hn
  · rw [CoroutinePool.cpCreate,if_pos hn]
    exact ⟨n,h⟩
  · have hagrees : Agrees (books {s with
        pools := Function.update s.pools n (some ⟨totalsize,0,stacksize,[]⟩)}) w.reg :=
      ⟨h.serves.agrees.tables,h.serves.agrees.co⟩
    obtain ⟨hserves,cp,hcp⟩ := h.serves.poolCreate (adds_cpAdd n stacksize) hagrees rfl hn
    rw [hfill]
    refine ⟨n+1,hserves,fun q => ?_⟩
    have hq := h.names q
    rw [show (books _).pools=_ from hcp]
    by_cases hqn : q=n
    · simp [hqn]
    · rw [Function.update_of_ne hqn,hq]
      omega

/-- `cp_obtain` on both sides, unless it returns without effect. -/
theorem Mirrors.obtain (h : Mirrors n (books s) w) (ht : cpObtain s p urgent=.ok t) :
    t=s ∨ ∃ w',CoroutinePool.cpObtain w 0 .outside p 0 false 0 true=.ok w' ∧
      Mirrors n (books t) w' := by
  refine (cpObtain_cases ht).imp_right fun ⟨cp,c,rest,hp,havail,hlist,ht⟩ => ?_
  have hagrees := h.serves.agrees
  have hc := hagrees.co c
  let record : Coro := {w.reg.co c with
    life := .live, sched := true, flagsAsymmetric := false, flagsIncoropool := true}
  have hrenewed : Agrees (books ((s.setPool p fun cp =>
      {cp with freelist := rest,activenum := cp.activenum+1}).setCo c renewRecord))
      {w.reg with co := Function.update w.reg.co c record} :=
    Agrees.setCo ⟨hagrees.tables,hagrees.co⟩ ⟨rfl,hc.cpool,hc.cid,rfl,rfl,fun _ => rfl⟩
  have heq : CoroutinePool.register {w.reg with co := Function.update w.reg.co c record} c=
      CoroutinePool.register (CoroutinePool.renew w.reg c false) c := by
    simp [record,CoroutinePool.register,CoroutinePool.renew,Register.nextCid]
  obtain ⟨hagrees',hpools⟩ := hrenewed.enrolled (by simp [renewRecord]) ht
  obtain ⟨w',hw',hserves⟩ := h.serves.take hp havail hlist (heq ▸ hagrees')
  refine ⟨w',hw',h.setPool hp ?_ hserves⟩
  rw [hpools]
  simp [books,Sched.setPool,Sched.setCo,hp]

/-- The end of a coroutine on both sides. -/
theorem Mirrors.coroAbort (h : Mirrors n (books s) w) (hs : Store s) (hl : (s.co c).life=.live)
    (ht : coroAbort s c=.ok t) :
    ∃ w',CoroutinePool.resumeExited w c=.ok w' ∧ Mirrors n (books t) w' := by
  have hc := h.serves.agrees.co c
  unfold ScheduleOps.coroAbort at ht
  unfold CoroutinePool.resumeExited
  rw [show (w.reg.co c).flagsIncoropool=(s.co c).flagsIncoropool from hc.flagsIncoropool]
  split_ifs at ht ⊢ with hin
  · obtain ⟨p,cp,hcp,hp⟩ := hs.pooled c (.inr hin)
    simp only [cpReturn,hcp] at ht
    obtain ⟨u,hu,ht⟩ := bind_eq_ok ht
    cases ht
    obtain ⟨r',hr',hagrees,hpools⟩ := h.serves.agrees.release
      (f := fun r => {r with flagsUrgent := false,life := .idle}) hl (fun _ => rfl) hu
    have hback : Agrees (books ((u.setCo c fun r =>
        {r with flagsUrgent := false,life := .idle}).setPool p fun cp =>
          {cp with freelist := c::cp.freelist,activenum := cp.activenum-1})) r' :=
      ⟨hagrees.tables,hagrees.co⟩
    obtain ⟨w',hw',hserves⟩ := h.serves.giveBack (hc.cpool.trans hcp) hp hr' hback
    refine ⟨w',hw',h.setPool hp ?_ hserves⟩
    simp [books,Sched.setPool,Sched.setCo,hpools,hp]
  · obtain ⟨u,hu,ht⟩ := bind_eq_ok ht
    cases ht
    obtain ⟨r',hr',hagrees,hpools⟩ := h.serves.agrees.release
      (f := fun r => {r with life := .freed}) hl (fun _ => rfl) hu
    refine ⟨_,?_,h.setReg hagrees hpools⟩
    rw [CoroutinePool.freecoro,hr']
    rfl

/-- A coroutine that leaves the books has exited or was killed. The second deletion of its
entry is made on both sides. -/
theorem Mirrors.leaves (h : Mirrors n (books s) w) (hs : Store s) (hl : (s.co c).life=.live)
    (hleave : Leaves s t c) : ∃ a w',(a=.exit c ∨ a=.abort c) ∧
      CoroutinePool.step w a=some (.ok w') ∧ Mirrors n (books t) w' := by
  obtain ⟨v,x,hv,hx,hend⟩ := hleave
  -- what is cancelled before the release leaves the books alone
  replace hl : (v.co c).life=.live := (congrArg (fun b : Books => (b.co c).1) hv).trans hl
  replace hs := hs.of_books hv
  rw [← hv] at h
  rw [hx]
  have hc := h.serves.agrees.co c
  have hactive : CoroutinePool.Active w c :=
    ⟨hc.life.trans hl,hc.flagsAsymmetric,by simp [h.serves.blocked]⟩
  rcases hend with hend|⟨hk,hend⟩
  · obtain ⟨w',hw',hm⟩ := h.coroAbort hs hl hend
    exact ⟨_,w',.inl rfl,by rw [CoroutinePool.step,if_pos hactive,hw'],hm⟩
  · simp only [cidDeleteWithAbort,hk] at hend
    split_ifs at hend with hheads
    obtain ⟨y,hy,hend⟩ := bind_eq_ok hend
    cases hend
    obtain ⟨w',hw',hm⟩ := h.coroAbort hs hl hy
    have habort : CoroutinePool.coroAbort w c=.ok w' := by
      rw [← hw',CoroutinePool.coroAbort,CoroutinePool.resumeExited,hc.flagsAsymmetric]
      rfl
    have hkilled : CoroutinePool.resumeKilled w c=.ok {w' with reg := {w'.reg with
        cidCoMap := w'.reg.cidCoMap.erase (v.co c).cid}} := by
      have hcid : (w.reg.co c).cid=(v.co c).cid := hc.cid
      have hmap : w.reg.cidCoMap=v.cidCoMap := h.serves.agrees.cidCoMap
      rw [CoroutinePool.resumeKilled,hcid,hmap,hk]
      simp only [hheads,habort]
      rfl
    have herased : Agrees (books {y with cidCoMap := y.cidCoMap.erase (v.co c).cid})
        {w'.reg with cidCoMap := w'.reg.cidCoMap.erase (v.co c).cid} :=
      ⟨congrArg (fun x => (x.1,x.2.1,x.2.2.1,x.2.2.2.1.erase (v.co c).cid,x.2.2.2.2))
        hm.serves.agrees.tables,hm.serves.agrees.co⟩
    exact ⟨_,_,.inr rfl,by rw [CoroutinePool.step,if_pos hactive,hkilled],hm.setReg herased rfl⟩

/-! ## Runs -/

/-- No live coroutine has the cid that is handed out next, and pools are named in order. -/
def namesApart (s : Sched) : Act → Prop
  | .create _ => ∀ c,(s.co c).life=.live → (s.co c).cid≠nextCid s
  | .obtain _ _ => ∀ c,(s.co c).life=.live → (s.co c).cid≠nextCid s
  | .poolCreate p _ _ => ∀ q<p,s.pools q≠none
  | _ => True

/-- Steps of the pools that hand out fresh cids and release no idle coroutine. -/
def Careful (w : World) (a : CoroutinePool.Act) : Prop :=
  (registers w a=true → Fresh w.reg) ∧ releasesNoIdle w a=true

/-- A cid that is fresh in the scheduler is fresh in the register. -/
theorem Mirrors.fresh (h : Mirrors n (books s) w)
    (hfresh : ∀ c,(s.co c).life=.live → (s.co c).cid≠nextCid s) : Fresh w.reg := by
  intro c hl
  have hc := h.serves.agrees.co c
  rw [hc.cid,h.serves.agrees.cid_eq]
  exact hfresh c (hc.life.symm.trans hl)

/-- The machine of the pools follows every step of the scheduler that names coroutines and
pools apart. -/
theorem Mirrors.follow {a : Act} (h : Mirrors n (books s) w) (hs : Sound s)
    (hc : ScheduleAbort.Disciplined s a) (ha : a≠.schedAbort) (hn : namesApart s a)
    (hm : Moves s a t) :
    ∃ m w',Runs CoroutinePool.step Careful w w' ∧ Mirrors m (books t) w' := by
  have hstep := hs.stepped False False False hc.1 hc.2 False.elim False.elim False.elim ha hm
  cases hstep.booked with
  | kept hb => exact ⟨n,w,.refl,hb ▸ h⟩
  | create hb =>
    have hm' := h.create hb
    exact ⟨n,_,.tail (a := .create) .refl ⟨fun _ => h.fresh hn,rfl⟩ rfl,hm'.serves.reply _,
      hm'.names⟩
  | poolCreate hb =>
    obtain ⟨m,hm'⟩ := h.poolCreate _ _ hb hn
    exact ⟨m,_,.tail (a := .poolCreate _ false) .refl ⟨nofun,rfl⟩ rfl,hm'⟩
  | @obtain p _ _ hb =>
    rcases h.obtain hb with rfl|⟨w',hw',hm'⟩
    · exact ⟨n,w,.refl,h⟩
    · refine ⟨n,w',.tail (a := .obtain 0 .outside p 0 false 0 true) .refl
        ⟨fun _ => h.fresh hn,rfl⟩ ?_,hm'⟩
      rw [← hw']
      exact if_pos ⟨h.serves.fd,nofun⟩
  | ended hl hleave =>
    obtain ⟨b,w',hb,hw',hm'⟩ := h.leaves hs.store hl hleave
    refine ⟨n,w',.tail .refl ?_ hw',hm'⟩
    rcases hb with rfl|rfl <;> exact ⟨nofun,rfl⟩

/-- The steps of a disciplined scheduler that is not aborted and names coroutines and pools
apart. -/
def Orderly (s : Sched) (a : Act) : Prop :=
  ScheduleAbort.Disciplined s a ∧ a≠.schedAbort ∧ namesApart s a

/-- Every orderly run of the scheduler is a run of the pools. -/
theorem mirrors_of_runs {schedId stackSize pageSize now : ℕ}
    (h : Runs step Orderly (dycoScheduleCreate schedId stackSize pageSize now) t) :
    ∃ n w,Runs CoroutinePool.step Careful (CoroutinePool.newScheduler schedId) w ∧
      Mirrors n (books t) w := by
  have hnew : Mirrors 0 (books (dycoScheduleCreate schedId stackSize pageSize now))
      (CoroutinePool.newScheduler schedId) :=
    ⟨⟨⟨rfl,fun c => ⟨rfl,rfl,rfl,rfl,rfl,nofun⟩⟩,nofun,rfl,rfl,rfl⟩,
      fun q => iff_of_true rfl (Nat.zero_le q)⟩
  refine (h.invariant (fun t => Sound t ∧ ∃ n w,Runs CoroutinePool.step Careful
    (CoroutinePool.newScheduler schedId) w ∧ Mirrors n (books t) w)
    ⟨sound_create ..,0,_,.refl,hnew⟩ ?_).2
  intro u a v ⟨hs,n,w,hrun,hm⟩ ⟨hd,ha,hn⟩ hstep
  have hmoves := moves_of_step hstep
  obtain ⟨m,w',hrun',hm'⟩ := hm.follow hs hd ha hn hmoves
  exact ⟨hs.moves hd.1 hd.2 ha hmoves,m,w',hrun.trans hrun',hm'⟩

/-- In every orderly run `coro_count` is the number of live coroutines, and `cid_co_map`
leads from the cid of each of them to it. -/
theorem coroCount_of_reachable (h : Reachable Orderly t) :
    t.coroCount.toNat=((Finset.range t.nextCo).filter fun c => (t.co c).life=.live).card ∧
    ∀ c,(t.co c).life=.live → ownCid t c=true := by
  obtain ⟨schedId,stackSize,pageSize,now,h⟩ := h
  obtain ⟨n,w,hrun,hm⟩ := mirrors_of_runs h
  have hagrees := hm.serves.agrees
  have hsound := (PoolOwnership.owned_of_runs hrun).sound
  obtain ⟨hexact,-⟩ := exact_of_runs (fun _ => True) hrun trivial (fun w a _ _ hc hr => hc hr)
    fun _ _ _ _ => trivial
  have hlife : ∀ c,(w.reg.co c).life=(t.co c).life := fun c => (hagrees.co c).life
  have hcount : w.reg.coroCount=t.coroCount := congrArg (fun x => x.2.2.1) hagrees.tables
  have hmap : w.reg.cidCoMap=t.cidCoMap := hagrees.cidCoMap
  have hnext : w.reg.nextCo=t.nextCo := hagrees.nextCo
  refine ⟨?_,fun c hc => ?_⟩
  · rw [← hcount,hexact.count,← hexact.card_liveCoros hsound,liveCoros,hnext]
    simp only [hlife]
  · have hlive := hexact.live c ((hlife c).trans hc)
    rw [hmap,(hagrees.co c).cid] at hlive
    exact decide_eq_true hlive

end DycoCoroutine.SchedulePools
