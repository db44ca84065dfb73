import DycoCoroutine.RunInvariant
import DycoCoroutine.ScheduleState

/-!
# Nested asymmetric coroutines

`dyco_asymcororesume` keeps the caller's context in the resumed coroutine and the
current thread in a local variable; `dyco_asymcoroyield` goes back to the kept
context. Contexts are modelled as points of a stack that are valid until the stack
is run again. As long as no call names a coroutine that is active already, the
active coroutines form a stack and every yield returns to the call it belongs to.
The code does not check this: a coroutine that is resumed while it is active is
entered a second time, and the context to return to is overwritten.
-/

namespace DycoCoroutine.AsymmetricNesting

open ScheduleState RunInvariant

/-- The stacks that code runs on: the main stack or that of a symmetric coroutine,
and those of asymmetric coroutines. -/
inductive Thread
  | base (b : Option ℤ)
  | co (cid : ℤ)
  deriving DecidableEq

/-- A call of `dyco_asymcororesume` that has gone into `swapcontext`. -/
structure Call where
  /-- Calls are numbered. -/
  id : ℕ
  /-- The stack of the caller. -/
  caller : Thread
  /-- `co_prev`: the current thread when the call was made. -/
  prev : Option ℤ
  /-- `co_next`: the coroutine that was named. -/
  next : ℤ
  deriving DecidableEq

/-- A saved context. -/
structure Point where
  /-- The stack that is continued. -/
  thread : Thread
  /-- The unfinished calls of `dyco_asymcororesume` on this stack, innermost first. -/
  calls : List Call
  /-- How often the stack had been entered when the context was saved. -/
  stamp : ℕ
  deriving DecidableEq

/-- A coroutine with its own stack, so that nothing is copied when it is switched. -/
structure Asym where
  /-- COROUTINE_FLAGS_ASYMMETRIC -/
  asymmetric : Bool
  /-- COROUTINE_STATUS_NEW -/
  new : Bool
  /-- COROUTINE_STATUS_RUNNING -/
  running : Bool
  /-- COROUTINE_STATUS_EXITED -/
  exited : Bool
  /-- `ctx`, once it has been set. -/
  ctx : Option Point
  /-- `ret`, once it has been set. -/
  ret : Option Point
  deriving DecidableEq

/-- A call of `dyco_asymcororesume` that has returned. -/
structure Returned where
  /-- The call. -/
  call : Call
  /-- The result. -/
  ret : ℤ
  /-- `sched->curr_thread` on return. -/
  curr : Option ℤ
  /-- Whether the named asymmetric coroutine has finished. -/
  finished : Bool
  deriving DecidableEq

/-- The coroutines of a scheduler and the one that is executing. -/
structure World where
  /-- `cid_co_map` -/
  table : ℤ → Option Asym
  /-- `sched->curr_thread` -/
  curr : Option ℤ
  /-- The stack that is executing. -/
  control : Thread
  /-- The unfinished calls on this stack. -/
  calls : List Call
  /-- How often each stack has been entered. -/
  stamp : Thread → ℕ
  /-- Whether a context was entered that was no longer valid. -/
  stale : Bool
  /-- The number of the next call. -/
  nextId : ℕ
  /-- All unfinished calls, latest first. -/
  chain : List Call
  /-- The call that has last started or continued a coroutine. -/
  last : ℤ → Option Call
  /-- The calls that have returned, oldest first. -/
  log : List Returned

/-- The active coroutines, the innermost first. -/
def World.active (w : World) : List ℤ := w.chain.map Call.next

/-- A scheduler without coroutines, in the main context. -/
def newWorld : World :=
  ⟨fun _ => none,none,.base none,[],fun _ => 0,false,0,[],fun _ => none,[]⟩

/-- The context of the executing stack. -/
def here (w : World) : Point := ⟨w.control,w.calls,w.stamp w.control⟩

/-- Continue at a saved context. -/
def jump (w : World) (p : Point) : World :=
  {w with
    control := p.thread
    calls := p.calls
    stamp := Function.update w.stamp p.thread (w.stamp p.thread+1)
    stale := p.stamp≠w.stamp p.thread}

/-- Replace the record of a coroutine. -/
def put (w : World) (cid : ℤ) (r : Asym) : World :=
  {w with table := Function.update w.table cid (some r)}

/-- A new call is numbered. -/
def openCall (w : World) (cid : ℤ) : Call := ⟨w.nextId,w.control,w.curr,cid⟩

/-- `dyco_asymcororesume` returns before `swapcontext`. -/
def returnAtOnce (w : World) (cid ret : ℤ) (finished : Bool) : World :=
  {w with
    nextId := w.nextId+1
    log := w.log++[⟨openCall w cid,ret,w.curr,finished⟩]}

/-- `init_coro` -/
def initCoro (w : World) (cid : ℤ) (r : Asym) : Asym :=
  {r with ctx := some ⟨.co cid,[],w.stamp (.co cid)⟩,new := false}

/-- `dyco_asymcororesume` up to its return or to `swapcontext`. -/
def dycoAsymcororesume (w : World) (cid : ℤ) : Except Fault World :=
  match w.table cid with
  | none => .ok (returnAtOnce w cid (-1) false)
  | some r =>
    if r.asymmetric=false then .ok (returnAtOnce w cid (-1) false)
    else if r.exited then .ok (returnAtOnce w cid 0 true)
    else
      let r := if r.new then initCoro w cid r else r
      match r.ctx with
      | none => .error .undefined
      | some p =>
        let f := openCall w cid
        let r := {r with running := true,ret := some {here w with calls := f::w.calls}}
        let w := put w cid r
        .ok (jump {w with
          curr := some cid
          nextId := w.nextId+1
          chain := f::w.chain
          last := Function.update w.last cid (some f)} p)

/-- `dyco_asymcororesume` after `swapcontext`. -/
def finishCall (w : World) (f : Call) : World :=
  let finished := (w.table f.next).any Asym.exited
  {w with
    curr := f.prev
    chain := w.chain.filter (·.id≠f.id)
    log := w.log++[⟨f,if finished then 0 else f.next,f.prev,finished⟩]}

/-- `dyco_asymcoroyield`, and the rest of the call that it returns to. -/
def dycoAsymcoroyield (w : World) : Except Fault World :=
  match w.curr with
  | none => .error .undefined
  | some c =>
    match w.table c with
    | none => .error .undefined
    | some r =>
      match r.ret with
      | some ⟨thread,f::rest,stamp⟩ =>
        if stamp≠w.stamp thread then .error .undefined
        else
          let w := put w c {r with running := false,ctx := some (here w)}
          .ok (finishCall (jump w ⟨thread,rest,stamp⟩) f)
      | _ => .error .undefined

/-- The end of `execute` on the stack of `c`. -/
def exitCo (w : World) (c : ℤ) : Except Fault World :=
  match w.table c with
  | none => .error .undefined
  | some r => dycoAsymcoroyield (put w c {r with exited := true})

/-- What can happen next. -/
inductive Act
  /-- A coroutine is created with a stack of its own. -/
  | create (cid : ℤ) (asymmetric : Bool)
  /-- The scheduler switches to another symmetric coroutine, or back to the main
  context. -/
  | switch (b : Option ℤ)
  /-- `dyco_asymcororesume` -/
  | resume (cid : ℤ)
  /-- `dyco_asymcoroyield` -/
  | yield
  /-- The function of the executing coroutine returns. -/
  | exit

/-- One step. Nothing is known of what code does that continues at an invalid
context. -/
def step (w : World) (a : Act) : Option (Except Fault World) :=
  if w.stale then some (.error .undefined)
  else match a with
    | .create cid asymmetric =>
      if w.table cid=none then some (.ok (put w cid ⟨asymmetric,true,false,false,none,none⟩))
      else none
    | .switch b =>
      match w.control with
      | .base _ =>
        if w.calls=[] ∧ b.all fun c => (w.table c).any fun r => !r.asymmetric then
          some (.ok {w with
            control := .base b
            curr := b
            stamp := Function.update w.stamp (.base b) (w.stamp (.base b)+1)})
        else none
      | .co _ => none
    | .resume cid => some (dycoAsymcororesume w cid)
    | .yield => some (dycoAsymcoroyield w)
    | .exit =>
      match w.control with
      | .base _ => none
      | .co c => some (exitCo w c)

/-- The states that a scheduler can reach when every step meets `cond`. -/
def Reachable (cond : World → Act → Prop) (w : World) : Prop := Runs step cond newWorld w

/-- A call names no active coroutine, and none with the identifier 0. -/
def inactive (w : World) : Act → Bool
  | .resume cid => cid≠0 && (w.table cid).all fun r => !(r.asymmetric && r.running)
  | _ => true

/-- The stack that executes on top of these unfinished calls. -/
def top (b : Option ℤ) : List Call → Thread
  | [] => .base b
  | f::_ => .co f.next

/-- The current thread on top of these unfinished calls. -/
def topCurr (b : Option ℤ) : List Call → Option ℤ
  | [] => b
  | f::_ => some f.next

/-- Every unfinished call was made on top of the earlier ones. -/
def Linked (b : Option ℤ) : List Call → Prop
  | [] => True
  | f::rest => f.caller=top b rest ∧ f.prev=topCurr b rest ∧ Linked b rest

/-- The record of a coroutine that was named by an unfinished call. -/
structure Active (w : World) (f : Call) (r : Asym) : Prop where
  asymmetric : r.asymmetric=true
  new : r.new=false
  exited : r.exited=false
  running : r.running=true
  /-- The context to return to is that of the call. -/
  ret : r.ret=some ⟨f.caller,[f],w.stamp f.caller⟩

/-- The record of a coroutine that was named by none. -/
structure Idle (w : World) (c : ℤ) (r : Asym) : Prop where
  running : r.running=false
  /-- If it was started and has not finished, it waits in its last yield. -/
  ctx : r.new=false → r.exited=false → r.ctx=some ⟨.co c,[],w.stamp (.co c)⟩

/-- The unfinished calls form a stack, with the main context or the symmetric
coroutine `b` at the bottom. -/
structure Nested (b : Option ℤ) (w : World) : Prop where
  valid : w.stale=false
  control : w.control=top b w.chain
  curr : w.curr=topCurr b w.chain
  calls : w.calls=[]
  linked : Linked b w.chain
  distinct : w.active.Nodup
  numbered : ∀ f∈w.chain,f.id<w.nextId
  ids : (w.chain.map Call.id).Nodup
  nonzero : ∀ f∈w.chain,f.next≠0
  active : ∀ f∈w.chain,∃ r,w.table f.next=some r ∧ Active w f r ∧ w.last f.next=some f
  idle : ∀ c r,w.table c=some r → r.asymmetric=true → c∉w.active → Idle w c r
  /-- Symmetric coroutines are never resumed by these calls. -/
  symmetric : ∀ c r,w.table c=some r → r.asymmetric=false → r.ret=none
  bottom : ∀ c,b=some c → ∃ r,w.table c=some r ∧ r.asymmetric=false
  returned : ∀ r∈w.log,r.curr=r.call.prev ∧ (r.ret=0 ↔ r.finished=true)

variable {w t : World} {b : Option ℤ} {c cid : ℤ} {f : Call} {rest : List Call} {a : Act}
  {cond : World → Act → Prop}

/-- The stack of a coroutine has an unfinished call only below a later one. -/
theorem mem_tail_of_caller (hl : Linked b rest) (hf : f∈rest) (hc : f.caller=.co c) :
    c∈rest.tail.map Call.next := by
  induction rest with
  | nil => cases hf
  | cons g rest ih =>
    rcases List.mem_cons.mp hf with rfl|hf
    · rw [hl.1] at hc
      cases rest with
      | nil => cases hc
      | cons h rest =>
        cases hc
        exact List.mem_cons_self
    · exact List.mem_of_mem_tail (List.map_tail ▸ ih hl.2.2 hf)

/-- The executing stack has no unfinished call. -/
theorem caller_ne_top (hl : Linked b rest) (hn : (rest.map Call.next).Nodup) (hf : f∈rest) :
    f.caller≠top b rest := by
  cases rest with
  | nil => cases hf
  | cons g rest =>
    intro hc
    exact (List.nodup_cons.mp hn).1 (mem_tail_of_caller hl hf hc)

theorem top_ne_co (hc : c∉rest.map Call.next) : top b rest≠.co c := by
  cases rest with
  | nil => exact fun h => by cases h
  | cons g rest =>
    rintro ⟨⟩
    exact hc List.mem_cons_self

theorem Nested.caller_ne_co (h : Nested b w) (hc : c∉w.active) (hf : f∈w.chain) :
    f.caller≠.co c := fun he =>
  hc (List.mem_of_mem_tail (List.map_tail ▸ mem_tail_of_caller h.linked hf he))

/-- Only the record of an asymmetric coroutine changes, which stays asymmetric. -/
theorem Nested.symmetric_of_update {r r' : Asym} (h : Nested b w) (hr : w.table c=some r)
    (ha : r.asymmetric=true) (hr' : t.table c=some r') (ha' : r'.asymmetric=true)
    (htable : ∀ d≠c,t.table d=w.table d) :
    (∀ d x,t.table d=some x → x.asymmetric=false → x.ret=none) ∧
      ∀ d,b=some d → ∃ x,t.table d=some x ∧ x.asymmetric=false := by
  refine ⟨fun d x hx hsym => ?_,fun d hb => ?_⟩
  · have hne : d≠c := by
      rintro rfl
      cases hr'.symm.trans hx
      cases hsym.symm.trans ha'
    exact h.symmetric d x ((htable d hne).symm.trans hx) hsym
  · obtain ⟨x,hx,hsym⟩ := h.bottom d hb
    have hne : d≠c := by
      rintro rfl
      cases hr.symm.trans hx
      cases hsym.symm.trans ha
    exact ⟨x,(htable d hne).trans hx,hsym⟩

/-- A call that returns at once. -/
theorem Nested.returnAtOnce {ret : ℤ} {finished : Bool} (h : Nested b w)
    (hr : ret=0 ↔ finished=true) : Nested b (returnAtOnce w cid ret finished) := by
  refine ⟨h.valid,h.control,h.curr,h.calls,h.linked,h.distinct,
    fun f hf => (h.numbered f hf).trans (Nat.lt_succ_self _),h.ids,h.nonzero,
    fun f hf => ?_,fun c r hc ha hn => ?_,h.symmetric,h.bottom,fun r hr' => ?_⟩
  · obtain ⟨r,hf',ha,hl⟩ := h.active f hf
    exact ⟨r,hf',⟨ha.asymmetric,ha.new,ha.exited,ha.running,ha.ret⟩,hl⟩
  · have hi := h.idle c r hc ha hn
    exact ⟨hi.running,hi.ctx⟩
  · rcases List.mem_append.mp hr' with hr'|hr'
    · exact h.returned r hr'
    · obtain rfl := List.mem_singleton.mp hr'
      exact ⟨rfl,hr⟩

/-- What `dyco_asymcororesume` leaves when it enters a coroutine that waits in its
last yield or has not been started. -/
def entered (w : World) (cid : ℤ) (r : Asym) : World :=
  let f := openCall w cid
  let r := {(if r.new then initCoro w cid r else r) with
    running := true
    ret := some {here w with calls := f::w.calls}}
  jump {put w cid r with
    curr := some cid
    nextId := w.nextId+1
    chain := f::w.chain
    last := Function.update w.last cid (some f)} ⟨.co cid,[],w.stamp (.co cid)⟩

theorem Nested.resume_eq {r : Asym} (h : Nested b w) (hr : w.table cid=some r)
    (ha : r.asymmetric=true) (he : r.exited=false) (hc : cid∉w.active) :
    dycoAsymcororesume w cid=.ok (entered w cid r) := by
  have hctx : (if r.new then initCoro w cid r else r).ctx=
      some ⟨.co cid,[],w.stamp (.co cid)⟩ := by
    split_ifs with hn
    · rfl
    · exact (h.idle cid r hr ha hc).ctx (Bool.eq_false_of_not_eq_true hn) he
  simp only [dycoAsymcororesume,hr]
  rw [if_neg (by rw [ha]; decide),if_neg (by rw [he]; decide),AsymmetricNesting.entered]
  generalize (if r.new then initCoro w cid r else r)=r' at hctx
  cases r'
  cases hctx
  rfl

/-- A coroutine is entered on top of the active ones. -/
theorem Nested.entered {r : Asym} (h : Nested b w) (hr : w.table cid=some r)
    (ha : r.asymmetric=true) (he : r.exited=false) (hc : cid∉w.active) (h0 : cid≠0) :
    Nested b (entered w cid r) := by
  have hstamp : ∀ T≠Thread.co cid,(AsymmetricNesting.entered w cid r).stamp T=w.stamp T :=
    fun T hT => Function.update_of_ne hT ..
  have htable : ∀ c≠cid,(AsymmetricNesting.entered w cid r).table c=w.table c :=
    fun c hne => Function.update_of_ne hne ..
  have hnew : ∀ f∈w.chain,f.next≠cid := fun f hf he => hc (he ▸ List.mem_map_of_mem hf)
  have hcontrol : w.control≠.co cid := h.control ▸ top_ne_co hc
  have hasym : (if r.new then initCoro w cid r else r).asymmetric=true := by
    split_ifs
    · exact ha
    · exact ha
  obtain ⟨r',hr',hasym'⟩ : ∃ r',(AsymmetricNesting.entered w cid r).table cid=some r' ∧
      r'.asymmetric=true := ⟨_,Function.update_self ..,hasym⟩
  obtain ⟨hsymmetric,hbottom⟩ := h.symmetric_of_update hr ha hr' hasym' htable
  refine ⟨by simp [AsymmetricNesting.entered,jump,put],rfl,rfl,rfl,⟨h.control,h.curr,h.linked⟩,
    List.nodup_cons.mpr ⟨hc,h.distinct⟩,fun f hf => ?_,List.nodup_cons.mpr ⟨?_,h.ids⟩,
    fun f hf => ?_,fun f hf => ?_,fun c r' hr' ha' hn => ?_,hsymmetric,hbottom,h.returned⟩
  · rcases List.mem_cons.mp hf with rfl|hf
    · exact Nat.lt_succ_self _
    · exact (h.numbered f hf).trans (Nat.lt_succ_self _)
  · intro hm
    obtain ⟨f,hf,hid⟩ := List.mem_map.mp hm
    exact absurd (h.numbered f hf) (hid ▸ lt_irrefl _)
  · rcases List.mem_cons.mp hf with rfl|hf
    · exact h0
    · exact h.nonzero f hf
  · rcases List.mem_cons.mp hf with rfl|hf
    · refine ⟨_,Function.update_self ..,⟨hasym,?_,?_,rfl,?_⟩,Function.update_self ..⟩
      · show (if r.new then initCoro w cid r else r).new=false
        split_ifs with hn
        · rfl
        · exact Bool.eq_false_of_not_eq_true hn
      · show (if r.new then initCoro w cid r else r).exited=false
        split_ifs
        · exact he
        · exact he
      · show some (Point.mk w.control (openCall w cid::w.calls) (w.stamp w.control))=_
        rw [h.calls]
        exact congrArg (fun n => some (Point.mk w.control [openCall w cid] n))
          (hstamp _ hcontrol).symm
    · obtain ⟨r',hr',ha',hl⟩ := h.active f hf
      have hcaller : f.caller≠.co cid := h.caller_ne_co hc hf
      exact ⟨r',(htable _ (hnew f hf)).trans hr',
        ⟨ha'.asymmetric,ha'.new,ha'.exited,ha'.running,(hstamp _ hcaller).symm ▸ ha'.ret⟩,
        (Function.update_of_ne (hnew f hf) ..).trans hl⟩
  · have hne : c≠cid := fun hce => hn (hce ▸ List.mem_cons_self)
    have hi := h.idle c r' ((htable c hne).symm.trans hr') ha' fun hm => hn (List.mem_cons_of_mem _ hm)
    refine ⟨hi.running,fun hn' he' => ?_⟩
    rw [hstamp _ fun hce => hne (Thread.co.inj hce)]
    exact hi.ctx hn' he'

/-- What a yield of the innermost active coroutine leaves. -/
def left (w : World) (f : Call) (r : Asym) : World :=
  finishCall (jump (put w f.next {r with running := false,ctx := some (here w)})
    ⟨f.caller,[],w.stamp f.caller⟩) f

theorem yield_eq {r : Asym} (hc : w.curr=some f.next) (hr : w.table f.next=some r)
    (hp : r.ret=some ⟨f.caller,[f],w.stamp f.caller⟩) : dycoAsymcoroyield w=.ok (left w f r) := by
  cases r
  cases hp
  simp only [dycoAsymcoroyield,hc,hr,ne_eq,not_true_eq_false,if_false]
  rfl

theorem left_log {r : Asym} (w : World) (f : Call) :
    (left w f r).log=w.log++[⟨f,if r.exited then 0 else f.next,f.prev,r.exited⟩] := by
  simp [left,finishCall,jump,put]

/-- The innermost active coroutine yields or, with `e`, exits. -/
theorem Nested.left {r : Asym} (h : Nested b w) (hw : w.chain=f::rest)
    (hr : w.table f.next=some r) (ha : Active w f r) (e : Bool) :
    Nested b (left (put w f.next {r with exited := e}) f {r with exited := e}) := by
  have hlinked := h.linked
  have hdistinct := h.distinct
  have hids := h.ids
  rw [hw] at hlinked hids
  rw [World.active,hw,List.map_cons,List.nodup_cons] at hdistinct
  rw [List.map_cons,List.nodup_cons] at hids
  obtain ⟨hcaller,hprev,hlinked⟩ := hlinked
  obtain ⟨hnew,hdistinct⟩ := hdistinct
  have hmem : ∀ g∈rest,g∈w.chain := fun g hg => hw ▸ List.mem_cons_of_mem _ hg
  set t := AsymmetricNesting.left (put w f.next {r with exited := e}) f {r with exited := e} with ht
  have hchain : t.chain=rest := by
    have hne : ∀ g∈rest,g.id≠f.id := fun g hg he => hids.1 (he ▸ List.mem_map_of_mem hg)
    show w.chain.filter (·.id≠f.id)=rest
    rw [hw,List.filter_cons_of_neg (by simp)]
    exact List.filter_eq_self.mpr fun g hg => decide_eq_true (hne g hg)
  have hstamp : ∀ T≠f.caller,t.stamp T=w.stamp T := fun T hT => Function.update_of_ne hT ..
  have htable : ∀ c≠f.next,t.table c=w.table c := fun c hne =>
    (Function.update_of_ne hne ..).trans (Function.update_of_ne hne ..)
  have hself : t.table f.next=some {r with exited := e,running := false,ctx := some (here w)} :=
    Function.update_self ..
  have hactive : t.active=rest.map Call.next := congrArg (List.map Call.next) hchain
  obtain ⟨hsymmetric,hbottom⟩ := h.symmetric_of_update hr ha.asymmetric hself ha.asymmetric htable
  refine ⟨?_,?_,?_,rfl,hchain ▸ hlinked,hactive ▸ hdistinct,fun g hg => ?_,hchain ▸ hids.2,
    fun g hg => ?_,fun g hg => ?_,fun c r' hr' ha' hn => ?_,hsymmetric,hbottom,fun x hx => ?_⟩
  · simp [ht,AsymmetricNesting.left,finishCall,jump,put]
  · rw [hchain]
    exact hcaller
  · rw [hchain]
    exact hprev
  · exact h.numbered g (hmem g (hchain ▸ hg))
  · exact h.nonzero g (hmem g (hchain ▸ hg))
  · have hg' : g∈rest := hchain ▸ hg
    obtain ⟨r',hr',ha',hl⟩ := h.active g (hmem g hg')
    have hne : g.next≠f.next := fun he => hnew (he ▸ List.mem_map_of_mem hg')
    have hgc : g.caller≠f.caller := hcaller ▸ caller_ne_top hlinked hdistinct hg'
    exact ⟨r',(htable _ hne).trans hr',
      ⟨ha'.asymmetric,ha'.new,ha'.exited,ha'.running,(hstamp _ hgc).symm ▸ ha'.ret⟩,hl⟩
  · rw [hactive] at hn
    by_cases hc : c=f.next
    · subst hc
      cases hself.symm.trans hr'
      refine ⟨rfl,fun _ _ => ?_⟩
      show some (here w)=_
      have hctl : w.control=.co f.next := h.control.trans (by rw [hw]; rfl)
      rw [hstamp _ (hcaller ▸ (top_ne_co hnew).symm),here,hctl,h.calls]
    · have hn' : c∉w.active := by
        rw [World.active,hw,List.map_cons,List.mem_cons]
        exact not_or.mpr ⟨hc,hn⟩
      have hi := h.idle c r' ((htable c hc).symm.trans hr') ha' hn'
      refine ⟨hi.running,fun hnw he => ?_⟩
      rw [hstamp _ (h.caller_ne_co hn' (hw ▸ List.mem_cons_self)).symm]
      exact hi.ctx hnw he
  · have h0 : f.next≠0 := h.nonzero f (hw ▸ List.mem_cons_self)
    rw [ht,left_log] at hx
    rcases List.mem_append.mp hx with hx|hx
    · exact h.returned x hx
    · obtain rfl := List.mem_singleton.mp hx
      refine ⟨rfl,?_⟩
      cases e with
      | false => exact iff_of_false h0 Bool.false_ne_true
      | true => exact iff_of_true rfl rfl

/-- The executing coroutine is the innermost active one. -/
theorem Nested.innermost (h : Nested b w) (hc : w.control=.co c) :
    ∃ f rest r,w.chain=f::rest ∧ f.next=c ∧ w.curr=some f.next ∧ w.table f.next=some r ∧
      Active w f r ∧ w.last f.next=some f := by
  have hcontrol := h.control
  have hcurr := h.curr
  cases hw : w.chain with
  | nil =>
    rw [hw,hc] at hcontrol
    cases hcontrol
  | cons f rest =>
    rw [hw,hc] at hcontrol
    rw [hw] at hcurr
    cases hcontrol
    obtain ⟨r,hr,ha,hl⟩ := h.active f (hw ▸ List.mem_cons_self)
    exact ⟨f,rest,r,rfl,rfl,hcurr,hr,ha,hl⟩

theorem put_self {r : Asym} (hr : w.table cid=some r) : put w cid r=w := by
  rw [put,← hr,Function.update_eq_self]

/-- The innermost active coroutine exits. -/
theorem exits {r : Asym} (hcurr : w.curr=some f.next) (hr : w.table f.next=some r)
    (ha : Active w f r) :
    exitCo w f.next=
      .ok (left (put w f.next {r with exited := true}) f {r with exited := true}) := by
  simp only [exitCo,hr]
  exact yield_eq hcurr (Function.update_self ..) ha.ret

/-- The innermost active coroutine yields. -/
theorem yields {r : Asym} (hcurr : w.curr=some f.next) (hr : w.table f.next=some r)
    (ha : Active w f r) :
    dycoAsymcoroyield w=
      .ok (left (put w f.next {r with exited := false}) f {r with exited := false}) := by
  have hself : {r with exited := false}=r := by
    rw [← ha.exited]
  rw [hself,put_self hr]
  exact yield_eq hcurr hr ha.ret

/-- In the main context or a symmetric coroutine there is nothing to yield to. -/
theorem Nested.yield_base (h : Nested b w) (hw : w.chain=[]) :
    dycoAsymcoroyield w=.error .undefined := by
  have hcurr : w.curr=b := h.curr.trans (by rw [hw]; rfl)
  cases b with
  | none => simp only [dycoAsymcoroyield,hcurr]
  | some c =>
    obtain ⟨r,hr,ha⟩ := h.bottom c rfl
    simp only [dycoAsymcoroyield,hcurr,hr,h.symmetric c r hr ha]

/-- A new coroutine is not active. -/
theorem Nested.create {r₀ : Asym} (h : Nested b w) (hnone : w.table cid=none)
    (hnew : r₀.new=true) (hrun : r₀.running=false) (hret : r₀.ret=none) :
    Nested b (put w cid r₀) := by
  have htable : ∀ c r,w.table c=some r → (put w cid r₀).table c=some r := by
    intro c r hr
    have hne : c≠cid := by
      rintro rfl
      rw [hnone] at hr
      cases hr
    exact (Function.update_of_ne hne ..).trans hr
  have hold : ∀ c r,(put w cid r₀).table c=some r → w.table c=some r ∨ r=r₀ := by
    intro c r hr
    by_cases hc : c=cid
    · subst hc
      exact .inr (Option.some.inj (hr.symm.trans (Function.update_self ..)))
    · exact .inl ((Function.update_of_ne hc ..).symm.trans hr)
  refine ⟨h.valid,h.control,h.curr,h.calls,h.linked,h.distinct,h.numbered,h.ids,h.nonzero,
    fun f hf => ?_,fun c r hr hasym hn => ?_,fun c r hr hsym => ?_,fun c hb => ?_,h.returned⟩
  · obtain ⟨r,hr,ha,hl⟩ := h.active f hf
    exact ⟨r,htable _ _ hr,⟨ha.asymmetric,ha.new,ha.exited,ha.running,ha.ret⟩,hl⟩
  · rcases hold c r hr with hr|rfl
    · have hi := h.idle c r hr hasym hn
      exact ⟨hi.running,hi.ctx⟩
    · exact ⟨hrun,fun hn' => by cases hnew.symm.trans hn'⟩
  · rcases hold c r hr with hr|rfl
    · exact h.symmetric c r hr hsym
    · exact hret
  · obtain ⟨r,hr,hsym⟩ := h.bottom c hb
    exact ⟨r,htable c r hr,hsym⟩

/-- While nothing is active the scheduler may switch to the symmetric coroutine
`b'`. -/
theorem Nested.switch {b₀ b' : Option ℤ} (h : Nested b w) (hb₀ : w.control=.base b₀)
    (hb' : ∀ c,b'=some c → ∃ r,w.table c=some r ∧ r.asymmetric=false) (n : ℕ) :
    Nested b' {w with
      control := .base b'
      curr := b'
      stamp := Function.update w.stamp (.base b') n} := by
  have hchain : w.chain=[] := by
    have hcontrol := h.control
    cases hw : w.chain with
    | nil => rfl
    | cons f rest =>
      rw [hw,hb₀] at hcontrol
      cases hcontrol
  refine ⟨h.valid,?_,?_,h.calls,?_,h.distinct,h.numbered,h.ids,h.nonzero,fun f hf => ?_,
    fun c r hr hasym hn => ?_,h.symmetric,hb',h.returned⟩
  · rw [hchain]
    rfl
  · rw [hchain]
    rfl
  · rw [hchain]
    trivial
  · rw [hchain] at hf
    cases hf
  · have hi := h.idle c r hr hasym hn
    refine ⟨hi.running,fun hn' he => ?_⟩
    show r.ctx=some ⟨.co c,[],Function.update w.stamp (.base b') n (.co c)⟩
    rw [Function.update_of_ne (by simp)]
    exact hi.ctx hn' he

/-- A call that names no active coroutine. -/
theorem Nested.resume (h : Nested b w) (h0 : cid≠0)
    (hi : ∀ r,w.table cid=some r → r.asymmetric=true → r.running=false)
    (ha : dycoAsymcororesume w cid=.ok t) : Nested b t := by
  cases hr : w.table cid with
  | none =>
    simp only [dycoAsymcororesume,hr] at ha
    cases ha
    exact h.returnAtOnce (by simp)
  | some r =>
    by_cases hsym : r.asymmetric=false
    · simp only [dycoAsymcororesume,hr] at ha
      rw [if_pos hsym] at ha
      cases ha
      exact h.returnAtOnce (by simp)
    have hasym : r.asymmetric=true := by simpa using hsym
    by_cases hex : r.exited=true
    · simp only [dycoAsymcororesume,hr] at ha
      rw [if_neg hsym,if_pos hex] at ha
      cases ha
      exact h.returnAtOnce (by simp)
    have hex' : r.exited=false := Bool.eq_false_of_not_eq_true hex
    have hc : cid∉w.active := by
      intro hm
      obtain ⟨f,hf,rfl⟩ := List.mem_map.mp hm
      obtain ⟨r',hr',ha',-⟩ := h.active f hf
      cases hr.symm.trans hr'
      cases (hi r hr hasym).symm.trans ha'.running
    rw [h.resume_eq hr hasym hex' hc] at ha
    cases ha
    exact h.entered hr hasym hex' hc h0

/-- A step that resumes no active coroutine. -/
theorem Nested.step (h : Nested b w) (hi : inactive w a=true) (ha : step w a=some (.ok t)) :
    ∃ b',Nested b' t := by
  unfold AsymmetricNesting.step at ha
  rw [if_neg (by rw [h.valid]; decide)] at ha
  cases a with
  | create cid asymmetric =>
    simp only at ha
    split_ifs at ha with hnone
    cases ha
    exact ⟨b,h.create hnone rfl rfl rfl⟩
  | switch b' =>
    simp only at ha
    split at ha
    · next b₀ hb₀ =>
      split_ifs at ha with hb
      cases ha
      refine ⟨b',h.switch hb₀ (fun c hc => ?_) _⟩
      subst hc
      simpa [Option.any_eq_true] using hb.2
    · cases ha
  | resume cid =>
    simp only [inactive,Bool.and_eq_true,decide_eq_true_eq] at hi
    refine ⟨b,h.resume hi.1 (fun r hr hasym => ?_) (Option.some.inj ha)⟩
    simpa [hr,hasym] using hi.2
  | yield =>
    cases hw : w.chain with
    | nil =>
      simp only [h.yield_base hw] at ha
      cases ha
    | cons f rest =>
      have hctl : w.control=.co f.next := h.control.trans (by rw [hw]; rfl)
      obtain ⟨f',rest',r,hw',-,hcurr,hr,hact,-⟩ := h.innermost hctl
      cases (yields hcurr hr hact).symm.trans (Option.some.inj ha)
      exact ⟨b,h.left hw' hr hact false⟩
  | exit =>
    cases hctl : w.control with
    | base b₀ =>
      simp only [hctl] at ha
      cases ha
    | co c =>
      obtain ⟨f,rest,r,hw,rfl,hcurr,hr,hact,-⟩ := h.innermost hctl
      simp only [hctl,exits hcurr hr hact] at ha
      cases ha
      exact ⟨b,h.left hw hr hact true⟩

theorem nested_newWorld : Nested none newWorld where
  valid := rfl
  control := rfl
  curr := rfl
  calls := rfl
  linked := trivial
  distinct := .nil
  numbered _ hf := absurd hf List.not_mem_nil
  ids := .nil
  nonzero _ hf := absurd hf List.not_mem_nil
  active _ hf := absurd hf List.not_mem_nil
  idle _ _ hr := by cases hr
  symmetric _ _ hr := by cases hr
  bottom _ hb := by cases hb
  returned _ hr := absurd hr List.not_mem_nil

/-- In every run in which no call of `dyco_asymcororesume` names an active coroutine
or the identifier 0: the active coroutines are distinct. A yield, or with `e` the
exit, of the executing coroutine `c` ends the call that has last started or
continued it, gives control to the caller, and installs the current thread that it
had. Every call that has returned did so with the current thread it was called
with, and with 0 if and only if the coroutine had finished. -/
theorem resume_yield_nested (h : Reachable (fun w a => inactive w a=true) w) :
    w.active.Nodup ∧
    (∀ c e,w.control=.co c → w.curr=some c ∧ ∃ f t ret,
      step w (if e then .exit else .yield)=some (.ok t) ∧ w.last c=some f ∧
      t.control=f.caller ∧ t.curr=f.prev ∧ t.log=w.log++[⟨f,ret,f.prev,e⟩] ∧
      (ret=0 ↔ e=true)) ∧
    ∀ r∈w.log,r.curr=r.call.prev ∧ (r.ret=0 ↔ r.finished=true) := by
  obtain ⟨b,hn⟩ : ∃ b,Nested b w := h.invariant (fun w => ∃ b,Nested b w) ⟨none,nested_newWorld⟩
    fun _ _ _ ⟨_,hn⟩ hi ha => hn.step hi ha
  refine ⟨hn.distinct,fun c e hc => ?_,hn.returned⟩
  obtain ⟨f,rest,r,hw,rfl,hcurr,hr,hact,hl⟩ := hn.innermost hc
  have h0 : f.next≠0 := hn.nonzero f (hw ▸ List.mem_cons_self)
  have hvalid : ¬w.stale=true := hn.valid ▸ Bool.false_ne_true
  cases e with
  | false =>
    exact ⟨hcurr,f,_,f.next,(if_neg hvalid).trans (congrArg some (yields hcurr hr hact)),hl,rfl,rfl,
      left_log ..,iff_of_false h0 Bool.false_ne_true⟩
  | true =>
    have hexit : step w .exit=some (exitCo w f.next) := by
      rw [step,if_neg hvalid]
      simp only [hc]
    exact ⟨hcurr,f,_,0,hexit.trans (congrArg some (exits hcurr hr hact)),hl,rfl,rfl,left_log ..,
      iff_of_true rfl rfl⟩

/-- The main context resumes 1, which resumes 2, which resumes 1. -/
def resumedTwice : List Act := [.create 1 true,.create 2 true,.resume 1,.resume 2,.resume 1]

/-- The coroutine 1 is active twice. -/
theorem active_coroutine_resumed :
    ∃ w,Reachable (fun _ _ => True) w ∧ w.active=[1,2,1] ∧ ¬w.active.Nodup := by
  have h : (replay step newWorld resumedTwice).map World.active=some [1,2,1] := by decide +kernel
  obtain ⟨w,hw,hq⟩ := Option.map_eq_some_iff.mp h
  exact ⟨w,runs_of_replay hw,hq,hq ▸ by decide⟩

/-- A symmetric coroutine resumes 1, which resumes 2, which yields. -/
theorem resume_yield_nested_twoDeep :
    ∃ w t f,Reachable (fun w a => inactive w a=true) w ∧ w.active=[2,1] ∧
      step w .yield=some (.ok t) ∧ w.last 2=some f ∧ t.control=f.caller ∧ t.curr=f.prev := by
  have h : (replayWhile step (fun w a => inactive w a=true) newWorld
      [.create 5 false,.create 1 true,.create 2 true,.switch (some 5),.resume 1,.resume 2]).map
      (fun w => (w.active,w.control))=some ([2,1],.co 2) := by decide +kernel
  obtain ⟨w,hw,hq⟩ := Option.map_eq_some_iff.mp h
  simp only [Prod.mk.injEq] at hq
  obtain ⟨-,hstep,-⟩ := resume_yield_nested (runs_of_replayWhile hw)
  obtain ⟨-,f,t,-,ht,hl,hctl,hcurr,-⟩ := hstep 2 false hq.2
  exact ⟨w,t,f,runs_of_replayWhile hw,hq.1,ht,hl,hctl,hcurr⟩

end DycoCoroutine.AsymmetricNesting
