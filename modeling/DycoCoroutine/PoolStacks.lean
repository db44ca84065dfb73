import DycoCoroutine.StackOwnership

/-!
# The stacks of pooled coroutines

`cp_obtain` gives a pooled coroutine the fields of a new one, but leaves it the stack
that it was returned with. That is the stack of the pool only as long as nobody sets
another one: `dyco_coroutine_setStack` does, and so does `dyco_asymcororesume` in a
coroutine. Otherwise every coroutine that comes out of a pool runs on the scheduler
stack, or on the block that the pool has allocated for it.
-/

namespace DycoCoroutine.PoolStacks

open ScheduleState RunInvariant StackOwnership

/-- The stack that a pool gives its coroutines. The buffer for the scheduler stack may
stay with a coroutine that shares it. -/
structure Configured (heap : ℕ → Option (ℕ×Origin)) (pageSize stacksize c : ℕ) (r : Coro) :
    Prop where
  shared : stacksize=0 → r.status .ownstack=false
  own : 0<stacksize → r.status .ownstack=true ∧ r.status .allocstackmem=true ∧
    r.stackSize=stacksize+stacksize%pageSize ∧ ∃ q,r.stack=.block q ∧ heap q=some (c,.pool)

/-- Whether a step gives a coroutine of a pool another kind of stack. -/
def reconfigures (w : World) : Act → Bool
  | .setStack c _ stacksize => (w.co c).any fun r => r.settable &&
    r.cpool.any fun p => (w.pools p).any fun cp => !(stacksize=0 && cp.stacksize=0)
  | .asymResume c inside => (w.co c).any fun r => r.settable && inside &&
    r.status .asymmetric && !r.status .exited && !r.status .ownstack && r.cpool.isSome
  | _ => false

/-- The pools and their coroutines are as `cp_create` has made them, as far as stacks
go. -/
structure Kept (w : World) : Prop where
  born : ∀ c r,w.co c=some r → c<w.nextCo
  blocks : ∀ c r,w.co c=some r → BlockOf w.heap c r.stack
  below : ∀ q,w.nextBlock ≤ q → w.heap q=none
  config : ∀ c r p,w.co c=some r → r.cpool=some p →
    ∃ cp,w.pools p=some cp ∧ Configured w.heap w.pageSize cp.stacksize c r
  free : ∀ p cp,w.pools p=some cp → ∀ c∈cp.freelist,
    c<w.nextCo ∧ ∀ r,w.co c=some r → r.cpool=some p
  fresh : ∀ p,w.nextPool ≤ p → w.pools p=none

variable {w t : World} {c q p stacksize cursize : ℕ} {r r' : Coro} {a : Act} {cp : CoroPool}
  {heap heap' : ℕ → Option (ℕ×Origin)} {stackptr : Option ℕ} {origin : Origin} {f : Coro → Coro}

/-- A new scheduler has no pools. -/
theorem kept_newWorld (schedId pageSize : ℕ) : Kept (newWorld schedId pageSize) :=
  ⟨fun _ _ hc => (nomatch hc),fun _ _ hc => (nomatch hc),fun _ _ => rfl,
    fun _ _ _ hc => (nomatch hc),fun _ _ hp => (nomatch hp),fun _ _ => rfl⟩

/-- A stack stays as configured while its block stays allocated. -/
theorem Configured.mono {pageSize : ℕ} (h : Configured heap pageSize stacksize c r)
    (hheap : ∀ q o,heap q=some (c,o) → heap' q=some (c,o)) :
    Configured heap' pageSize stacksize c r := by
  refine ⟨h.shared,fun hsize => ?_⟩
  obtain ⟨hown,halloc,hstackSize,q,hq,ho⟩ := h.own hsize
  exact ⟨hown,halloc,hstackSize,q,hq,hheap q _ ho⟩

/-- Records with the same stack are configured alike. -/
theorem Configured.same {pageSize : ℕ} (h : Configured heap pageSize stacksize c r)
    (hsame : SameStack r r') : Configured heap pageSize stacksize c r' := by
  obtain ⟨hstack,hstackSize,hown,halloc⟩ := hsame
  refine ⟨fun hsize => hown.trans (h.shared hsize),fun hsize => ?_⟩
  obtain ⟨hown',halloc',hsize',q,hq,ho⟩ := h.own hsize
  exact ⟨hown.trans hown',halloc.trans halloc',hstackSize.trans hsize',q,hstack.trans hq,ho⟩

/-- What is asked of the record that a step leaves. -/
def Fits (t : World) (c : ℕ) (r : Coro) : Prop :=
  c<t.nextCo ∧ BlockOf t.heap c r.stack ∧ ∀ p,r.cpool=some p →
    ∃ cp,t.pools p=some cp ∧ Configured t.heap t.pageSize cp.stacksize c r

/-- A step on the coroutine `c`, an old one or a new one. -/
theorem Kept.change (h : Kept w) (hco : ∀ d≠c,t.co d=w.co d)
    (hself : ∀ r,t.co c=some r → Fits t c r)
    (hcpool : ∀ r,t.co c=some r → w.nextCo ≤ c ∨ ∃ r₀,w.co c=some r₀ ∧ r.cpool=r₀.cpool)
    (hheap : ∀ d q o,d≠c → w.heap q=some (d,o) → t.heap q=some (d,o))
    (hbelow : ∀ q,t.nextBlock ≤ q → t.heap q=none) (hpage : t.pageSize=w.pageSize)
    (hnext : w.nextCo ≤ t.nextCo)
    (hpools : ∀ p cp,w.pools p=some cp → ∃ cp',t.pools p=some cp' ∧ cp'.stacksize=cp.stacksize)
    (hfree : ∀ p cp,t.pools p=some cp → ∀ x∈cp.freelist,
      (∃ cp',w.pools p=some cp' ∧ x∈cp'.freelist) ∨
      x=c ∧ c<t.nextCo ∧ ∀ r,t.co c=some r → r.cpool=some p)
    (hfresh : ∀ p,t.nextPool ≤ p → t.pools p=none) : Kept t := by
  refine ⟨fun d r hd => ?_,fun d r hd => ?_,hbelow,fun d r p hd hp => ?_,
    fun p cp hp x hx => ?_,hfresh⟩
  · by_cases hdc : d=c
    · subst hdc
      exact (hself r hd).1
    · exact (h.born d r ((hco d hdc).symm.trans hd)).trans_le hnext
  · by_cases hdc : d=c
    · subst hdc
      exact (hself r hd).2.1
    · intro q hq
      obtain ⟨o,ho⟩ := h.blocks d r ((hco d hdc).symm.trans hd) q hq
      exact ⟨o,hheap d q o hdc ho⟩
  · by_cases hdc : d=c
    · subst hdc
      exact (hself r hd).2.2 p hp
    · obtain ⟨cp,hcp,hconf⟩ := h.config d r p ((hco d hdc).symm.trans hd) hp
      obtain ⟨cp',hcp',hsize⟩ := hpools p cp hcp
      refine ⟨cp',hcp',?_⟩
      rw [hsize,hpage]
      exact hconf.mono fun q o ho => hheap d q o hdc ho
  · rcases hfree p cp hp x hx with ⟨cp',hcp',hmem⟩|⟨rfl,hlt,hr⟩
    · obtain ⟨hlt,hr⟩ := h.free p cp' hcp' x hmem
      refine ⟨hlt.trans_le hnext,fun r hx' => ?_⟩
      by_cases hxc : x=c
      · subst hxc
        rcases hcpool r hx' with hnew|⟨r₀,hr₀,heq⟩
        · exact absurd hlt (not_lt.mpr hnew)
        · exact heq.trans (hr r₀ hr₀)
      · exact hr r ((hco x hxc).symm.trans hx')
    · exact ⟨hlt,hr⟩

/-- The record of an old coroutine is replaced, and nothing else changes. -/
theorem Kept.put (h : Kept w) (hc : w.co c=some r) (hcpool : r'.cpool=r.cpool)
    (hr : Fits w c r') : Kept (put w c r') := by
  have hself : ∀ {r₁},(StackOwnership.put w c r').co c=some r₁ → r₁=r' := by
    intro r₁ hr₁
    have hnew : (StackOwnership.put w c r').co c=some r' := Function.update_self ..
    exact Option.some.inj (hr₁.symm.trans hnew)
  refine h.change (c := c) (fun d hd => Function.update_of_ne hd ..) (fun r₁ hr₁ => ?_)
    (fun r₁ hr₁ => ?_) (fun _ _ _ _ hq => hq) h.below rfl le_rfl
    (fun p cp hp => ⟨cp,hp,rfl⟩) (fun p cp hp x hx => .inl ⟨cp,hp,hx⟩) h.fresh
  · rw [hself hr₁]
    exact hr
  · rw [hself hr₁]
    exact .inr ⟨r,hc,hcpool⟩

/-- Every coroutine fits its pool. -/
theorem Kept.fits (h : Kept w) (hc : w.co c=some r) : Fits w c r :=
  ⟨h.born c r hc,h.blocks c r hc,fun p hp => h.config c r p hc hp⟩

/-- Records with the same stack and pool fit alike. -/
theorem Fits.same (h : Fits w c r) (hsame : SameStack r r') (hcpool : r'.cpool=r.cpool) :
    Fits w c r' := by
  refine ⟨h.1,fun q hq => h.2.1 q (hsame.1.symm.trans hq),fun p hp => ?_⟩
  obtain ⟨cp,hcp,hconf⟩ := h.2.2 p (hcpool.symm.trans hp)
  exact ⟨cp,hcp,hconf.same hsame⟩

/-- A change of a record that leaves its stack and its pool alone. -/
theorem Kept.modify (h : Kept w) (hf : ∀ r,SameStack r (f r)) (hcpool : ∀ r,(f r).cpool=r.cpool) :
    Kept (modify w c f) := by
  cases hc : w.co c with
  | none =>
    have hsame : StackOwnership.modify w c f=w := by
      simp only [StackOwnership.modify,hc,Option.map_none]
      rw [← hc,Function.update_eq_self]
    rwa [hsame]
  | some r =>
    have hput : StackOwnership.modify w c f=StackOwnership.put w c (f r) := by
      simp only [StackOwnership.modify,StackOwnership.put,hc,Option.map_some]
    rw [hput]
    exact h.put hc (hcpool r) ((h.fits hc).same (hf r) (hcpool r))

/-! ## Steps -/

/-- A coroutine on the scheduler stack is one of a pool without stacks. -/
theorem configured_shared {pageSize : ℕ} (hown : r.status .ownstack=false) :
    Configured heap pageSize 0 c r := ⟨fun _ => hown,fun hsize => absurd hsize (lt_irrefl 0)⟩

/-- A pooled coroutine that shares the scheduler stack is one of a pool without
stacks. -/
theorem Kept.shared (h : Kept w) (hc : w.co c=some r) (hown : r.status .ownstack=false)
    (hp : r.cpool=some p) : ∃ cp,w.pools p=some cp ∧ cp.stacksize=0 := by
  obtain ⟨cp,hcp,hconf⟩ := h.config c r p hc hp
  refine ⟨cp,hcp,?_⟩
  by_contra hne
  rw [(hconf.own (Nat.pos_of_ne_zero hne)).1] at hown
  cases hown

/-- The record of an old coroutine is replaced, which gets a new block. The old one may
be released. -/
theorem Kept.newBlock (h : Kept w) (origin : Origin) (released : List Buffer) (r' : Coro)
    {old : Buffer} (hold : BlockOf w.heap c old) (hc : w.co c=some r) (hcpool : r'.cpool=r.cpool)
    (hstack : r'.stack=.block w.nextBlock)
    (hconf : ∀ p,r'.cpool=some p → r'.status .ownstack=false ∧
      ∃ cp,w.pools p=some cp ∧ cp.stacksize=0) :
    Kept (StackOwnership.put {allocate {w with heap := release w.heap old} c origin with
      released := released} c r') := by
  obtain ⟨hkeep,hfree⟩ := allocate_spec (w := {w with heap := release w.heap old}) c
    origin fun q hq => release_none (h.below q hq)
  have hself : ∀ {r₁ t},t=StackOwnership.put {allocate {w with heap := release w.heap old} c origin
      with released := released} c r' → t.co c=some r₁ → r₁=r' := by
    rintro r₁ t rfl hr₁
    exact Option.some.inj (hr₁.symm.trans (Function.update_self ..))
  refine h.change (c := c) (fun d hd => Function.update_of_ne hd ..) (fun r₁ hr₁ => ?_)
    (fun r₁ hr₁ => ?_) (fun d q o hd hq => hkeep d q o (release_other hold hd hq)) hfree rfl le_rfl
    (fun p cp hp => ⟨cp,hp,rfl⟩) (fun p cp hp x hx => .inl ⟨cp,hp,hx⟩) h.fresh
  · rw [hself rfl hr₁]
    refine ⟨h.born c r hc,fun q hq => ?_,fun p hp => ?_⟩
    · cases hstack.symm.trans hq
      exact ⟨origin,Function.update_self ..⟩
    · obtain ⟨hown,cp,hcp,hsize⟩ := hconf p hp
      refine ⟨cp,hcp,?_⟩
      rw [hsize]
      exact configured_shared hown
  · rw [hself rfl hr₁]
    exact .inr ⟨r,hc,hcpool⟩

/-- A new stack for a coroutine outside the pools, or of the size of its pool. -/
theorem Kept.coroSetstack (h : Kept w) (hc : w.co c=some r)
    (hpool : ∀ p,r.cpool=some p → stacksize=0 ∧ ∃ cp,w.pools p=some cp ∧ cp.stacksize=0) :
    Kept (coroSetstack w c r origin stackptr stacksize).2 := by
  unfold StackOwnership.coroSetstack
  split_ifs with hsize
  · refine h.put hc rfl ⟨h.born c r hc,fun q hq => (nomatch hq),fun p hp => ?_⟩
    obtain ⟨-,cp,hcp,hzero⟩ := hpool p hp
    refine ⟨cp,hcp,?_⟩
    rw [hzero]
    exact configured_shared rfl
  · have hnone : ∀ p,r.cpool≠some p := fun p hp => hsize (hpool p hp).1
    cases stackptr with
    | none =>
      have hnull : BlockOf w.heap c .null := fun q hq => nomatch hq
      exact h.newBlock origin w.released _ hnull hc rfl rfl fun p hp => absurd hp (hnone p)
    | some addr =>
      exact h.put hc rfl ⟨h.born c r hc,fun q hq => (nomatch hq),fun p hp => absurd hp (hnone p)⟩

/-- `savestk` changes the stack of no coroutine that has one of its own. -/
theorem Kept.savestk (h : Kept w) (hc : w.co c=some r) : Kept (savestk w c r cursize) := by
  unfold StackOwnership.savestk
  split_ifs with hown hsize
  · exact h
  · have hown : r.status .ownstack=false := by simpa using hown
    exact h.newBlock .save _ ({r with stack := .block w.nextBlock,stackSize := cursize}.setbit
      .allocstackmem) (h.blocks c r hc) hc rfl rfl fun p hp => ⟨hown,h.shared hc hown hp⟩
  · have hown : r.status .ownstack=false := by simpa using hown
    refine h.put hc rfl ⟨h.born c r hc,h.blocks c r hc,fun p hp => ?_⟩
    obtain ⟨cp,hcp,hzero⟩ := h.shared hc hown hp
    refine ⟨cp,hcp,?_⟩
    rw [hzero]
    exact configured_shared hown

/-- A freed coroutine asks nothing of its pool. -/
theorem Kept.freecoro (h : Kept w) (hc : w.co c=some r) : Kept (freecoro w c r) := by
  have hgone : ∀ {x : Option Coro},Function.update w.co c none c=x → x=none := by
    rintro x rfl
    exact Function.update_self ..
  unfold StackOwnership.freecoro
  split_ifs
  · refine h.change (c := c) (fun d hd => Function.update_of_ne hd ..)
      (fun r₁ hr₁ => (nomatch hgone hr₁)) (fun r₁ hr₁ => (nomatch hgone hr₁))
      (fun d q o hd hq => release_other (h.blocks c r hc) hd hq)
      (fun q hq => release_none (h.below q hq)) rfl le_rfl (fun p cp hp => ⟨cp,hp,rfl⟩)
      (fun p cp hp x hx => .inl ⟨cp,hp,hx⟩) h.fresh
  · exact h.change (c := c) (fun d hd => Function.update_of_ne hd ..)
      (fun r₁ hr₁ => (nomatch hgone hr₁)) (fun r₁ hr₁ => (nomatch hgone hr₁))
      (fun _ _ _ _ hq => hq) h.below rfl le_rfl (fun p cp hp => ⟨cp,hp,rfl⟩)
      (fun p cp hp x hx => .inl ⟨cp,hp,hx⟩) h.fresh

/-- The record of an old coroutine changes with the freelist of its pool. -/
theorem Kept.relist (h : Kept w) (hc : w.co c=some r) (hsame : SameStack r r')
    (hcpool : r'.cpool=r.cpool) (hp : w.pools p=some cp) (cp' : CoroPool) {gen : ℕ}
    (hsize : cp'.stacksize=cp.stacksize)
    (hlist : ∀ x∈cp'.freelist,x∈cp.freelist ∨ x=c ∧ r.cpool=some p) :
    Kept (StackOwnership.put {w with
      pools := Function.update w.pools p (some cp'),cidGen := gen} c r') := by
  have hself : ∀ {r₁},Function.update w.co c (some r') c=some r₁ → r₁=r' := by
    intro r₁ hr₁
    rw [Function.update_self] at hr₁
    exact (Option.some.inj hr₁).symm
  have hpools : ∀ q cq,w.pools q=some cq →
      ∃ cq',Function.update w.pools p (some cp') q=some cq' ∧ cq'.stacksize=cq.stacksize := by
    intro q cq hq
    by_cases hqp : q=p
    · subst hqp
      rw [hp] at hq
      cases hq
      exact ⟨cp',Function.update_self ..,hsize⟩
    · exact ⟨cq,(Function.update_of_ne hqp ..).trans hq,rfl⟩
  refine h.change (c := c) (fun d hd => Function.update_of_ne hd ..) (fun r₁ hr₁ => ?_)
    (fun r₁ hr₁ => ?_) (fun _ _ _ _ hq => hq) h.below rfl le_rfl hpools
    (fun q cq hq x hx => ?_) fun q hq => ?_
  · rw [hself hr₁]
    obtain ⟨hlt,hblock,hconf⟩ := (h.fits hc).same hsame hcpool
    refine ⟨hlt,hblock,fun q hq => ?_⟩
    obtain ⟨cq,hcq,hconf⟩ := hconf q hq
    obtain ⟨cq',hcq',hsize'⟩ := hpools q cq hcq
    exact ⟨cq',hcq',hsize'.symm ▸ hconf⟩
  · rw [hself hr₁]
    exact .inr ⟨r,hc,hcpool⟩
  · change Function.update w.pools p (some cp') q=some cq at hq
    by_cases hqp : q=p
    · subst hqp
      rw [Function.update_self] at hq
      cases hq
      rcases hlist x hx with hx|⟨rfl,hq⟩
      · exact .inl ⟨cp,hp,hx⟩
      · refine .inr ⟨rfl,h.born x r hc,fun r₁ hr₁ => ?_⟩
        rw [hself hr₁,hcpool,hq]
    · rw [Function.update_of_ne hqp] at hq
      exact .inl ⟨cq,hq,hx⟩
  · have hne : q≠p := by
      rintro rfl
      cases (h.fresh q hq).symm.trans hp
    exact (Function.update_of_ne hne ..).trans (h.fresh q hq)

/-- What the new object of `cp_create` finds and leaves. -/
structure Added (w : World) (stacksize : ℕ) (t : World) (r : Coro) : Prop where
  co : t.co=Function.update w.co w.nextCo (some r)
  cpool : r.cpool=none
  block : BlockOf t.heap w.nextCo r.stack
  configured : Configured t.heap w.pageSize stacksize w.nextCo r
  heap : ∀ d q o,w.heap q=some (d,o) → t.heap q=some (d,o)
  below : ∀ q,t.nextBlock ≤ q → t.heap q=none
  pools : t.pools=w.pools
  nextPool : t.nextPool=w.nextPool
  pageSize : t.pageSize=w.pageSize
  nextCo : t.nextCo=w.nextCo+1

/-- The object that `cp_create` makes next. -/
theorem cpNew_spec (h : Kept w) (stacksize : ℕ) (isasymmetric : Bool) :
    ∃ r,Added w stacksize (cpNew stacksize isasymmetric w) r := by
  have hnone : ∀ {heap c},BlockOf heap c (.null : Buffer) := fun q hq => nomatch hq
  rcases Nat.eq_zero_or_pos stacksize with rfl|hsize
  · cases isasymmetric with
    | false => exact ⟨newcoro,rfl,rfl,hnone,configured_shared rfl,fun _ _ _ hq => hq,h.below,rfl,rfl,
        rfl,rfl⟩
    | true => exact ⟨_,Function.update_idem ..,rfl,hnone,configured_shared rfl,fun _ _ _ hq => hq,
        h.below,rfl,rfl,rfl,rfl⟩
  · obtain ⟨hkeep,hfree⟩ := allocate_spec w.nextCo .pool h.below
    have hnew : cpNew stacksize isasymmetric w=StackOwnership.put (allocate (StackOwnership.put
        {w with nextCo := w.nextCo+1} w.nextCo (poolRecord isasymmetric)) w.nextCo .pool) w.nextCo
        (({poolRecord isasymmetric with
          stack := .block w.nextBlock
          stackSize := stacksize+stacksize%w.pageSize}.setbit .ownstack).setbit .allocstackmem) := by
      simp only [cpNew,hsize,or_true,if_true,StackOwnership.coroSetstack,
        if_neg (Nat.pos_iff_ne_zero.mp hsize)]
      rfl
    rw [hnew]
    refine ⟨_,Function.update_idem ..,?_,fun q hq => ?_,⟨fun hzero => ?_,fun _ => ?_⟩,hkeep,hfree,
      rfl,rfl,rfl,rfl⟩
    · cases isasymmetric <;> rfl
    · cases hq
      exact ⟨.pool,Function.update_self ..⟩
    · omega
    · exact ⟨rfl,rfl,rfl,w.nextBlock,rfl,Function.update_self ..⟩

/-- A new member of a pool has a stack of the size of the pool. -/
theorem Kept.cpAdd (h : Kept w) (hp : w.pools p=some cp) (hsize : cp.stacksize=stacksize)
    (isasymmetric : Bool) : Kept (cpAdd p stacksize isasymmetric w) := by
  obtain ⟨r,hadded⟩ := cpNew_spec h stacksize isasymmetric
  have hco : (StackOwnership.cpAdd p stacksize isasymmetric w).co=
      Function.update w.co w.nextCo (some (pooled p r)) := by
    show Function.update (cpNew stacksize isasymmetric w).co w.nextCo
      (((cpNew stacksize isasymmetric w).co w.nextCo).map (pooled p))=_
    rw [hadded.co,Function.update_self,Function.update_idem]
    rfl
  have hpools : (StackOwnership.cpAdd p stacksize isasymmetric w).pools=
      Function.update w.pools p (some {cp with freelist := w.nextCo::cp.freelist}) := by
    show Function.update (cpNew stacksize isasymmetric w).pools p
      (((cpNew stacksize isasymmetric w).pools p).map _)=_
    rw [hadded.pools,hp]
    rfl
  have hself : ∀ {r₁},(StackOwnership.cpAdd p stacksize isasymmetric w).co w.nextCo=some r₁ →
      r₁=pooled p r := by
    intro r₁ hr₁
    rw [hco,Function.update_self] at hr₁
    exact (Option.some.inj hr₁).symm
  have hlt : w.nextCo<(StackOwnership.cpAdd p stacksize isasymmetric w).nextCo := by
    show w.nextCo<(cpNew stacksize isasymmetric w).nextCo
    rw [hadded.nextCo]
    exact Nat.lt_succ_self _
  refine h.change (c := w.nextCo) (fun d hd => by rw [hco,Function.update_of_ne hd])
    (fun r₁ hr₁ => ?_) (fun _ _ => .inl le_rfl) (fun d q o _ hq => hadded.heap d q o hq) hadded.below
    hadded.pageSize hlt.le (fun q cq hq => ?_) (fun q cq hq x hx => ?_) fun q hq => ?_
  · rw [hself hr₁]
    refine ⟨hlt,hadded.block,fun q hq => ?_⟩
    cases hq
    refine ⟨_,by rw [hpools,Function.update_self],?_⟩
    show Configured (cpNew stacksize isasymmetric w).heap (cpNew stacksize isasymmetric w).pageSize
      cp.stacksize w.nextCo (pooled p r)
    rw [hsize,hadded.pageSize]
    exact hadded.configured.same (sameStack_pooled p r)
  · rw [hpools]
    by_cases hqp : q=p
    · subst hqp
      rw [hp] at hq
      cases hq
      exact ⟨_,Function.update_self ..,rfl⟩
    · exact ⟨cq,(Function.update_of_ne hqp ..).trans hq,rfl⟩
  · rw [hpools] at hq
    by_cases hqp : q=p
    · subst hqp
      rw [Function.update_self] at hq
      cases hq
      rcases List.mem_cons.mp hx with rfl|hx
      · refine .inr ⟨rfl,hlt,fun r₁ hr₁ => ?_⟩
        rw [hself hr₁]
        rfl
      · exact .inl ⟨cp,hp,hx⟩
    · rw [Function.update_of_ne hqp] at hq
      exact .inl ⟨cq,hq,hx⟩
  · have hge : w.nextPool ≤ q := hadded.nextPool.symm.le.trans hq
    have hne : q≠p := by
      rintro rfl
      cases (h.fresh q hge).symm.trans hp
    rw [hpools,Function.update_of_ne hne]
    exact h.fresh q hge

/-- A coroutine that nobody has put anywhere yet. -/
theorem Kept.create (h : Kept w) {gen : ℕ} (hnull : r.stack=.null) (hcpool : r.cpool=none) :
    Kept (StackOwnership.put {w with nextCo := w.nextCo+1,cidGen := gen} w.nextCo r) := by
  refine h.change (c := w.nextCo) (fun d hd => Function.update_of_ne hd ..) (fun r₁ hr₁ => ?_)
    (fun _ _ => .inl le_rfl) (fun _ _ _ _ hq => hq) h.below rfl (Nat.le_succ _)
    (fun p cp hp => ⟨cp,hp,rfl⟩) (fun p cp hp x hx => .inl ⟨cp,hp,hx⟩) h.fresh
  change Function.update w.co w.nextCo (some r) w.nextCo=some r₁ at hr₁
  rw [Function.update_self] at hr₁
  cases hr₁
  refine ⟨Nat.lt_succ_self _,fun q hq => ?_,fun p hp => ?_⟩
  · cases hnull.symm.trans hq
  · cases hcpool.symm.trans hp

/-- `cp_create` -/
theorem Kept.cpCreate (h : Kept w) (totalsize : ℤ) (stacksize : ℕ) (isasymmetric : Bool) :
    Kept (cpCreate w totalsize stacksize isasymmetric) := by
  have hnew : ∀ q≠w.nextPool,Function.update w.pools w.nextPool
      (some (⟨totalsize,0,stacksize,[]⟩ : CoroPool)) q=w.pools q :=
    fun q hq => Function.update_of_ne hq ..
  have hold : ∀ {q cq},w.pools q=some cq → q≠w.nextPool := by
    rintro q cq hq rfl
    cases (h.fresh _ le_rfl).symm.trans hq
  have hstart : Kept {w with
      pools := Function.update w.pools w.nextPool (some ⟨totalsize,0,stacksize,[]⟩)
      nextPool := w.nextPool+1} := by
    refine ⟨h.born,h.blocks,h.below,fun c r q hc hq => ?_,fun q cq hq x hx => ?_,fun q hq => ?_⟩
    · obtain ⟨cq,hcq,hconf⟩ := h.config c r q hc hq
      exact ⟨cq,(hnew q (hold hcq)).trans hcq,hconf⟩
    · change Function.update w.pools w.nextPool (some _) q=some cq at hq
      by_cases hqp : q=w.nextPool
      · subst hqp
        rw [Function.update_self] at hq
        cases hq
        cases hx
      · rw [hnew q hqp] at hq
        exact h.free q cq hq x hx
    · have hlt : w.nextPool<q := hq
      exact (hnew q hlt.ne').trans (h.fresh q hlt.le)
  have hadd : ∀ t,(Kept t ∧ ∃ cp,t.pools w.nextPool=some cp ∧ cp.stacksize=stacksize) →
      Kept (StackOwnership.cpAdd w.nextPool stacksize isasymmetric t) ∧
      ∃ cp,(StackOwnership.cpAdd w.nextPool stacksize isasymmetric t).pools w.nextPool=some cp ∧
        cp.stacksize=stacksize := by
    rintro t ⟨hkept,cp,hp,hsize⟩
    refine ⟨hkept.cpAdd hp hsize isasymmetric,{cp with freelist := t.nextCo::cp.freelist},?_,hsize⟩
    obtain ⟨r,hadded⟩ := cpNew_spec hkept stacksize isasymmetric
    show Function.update (cpNew stacksize isasymmetric t).pools w.nextPool
      (((cpNew stacksize isasymmetric t).pools w.nextPool).map _) w.nextPool=_
    rw [Function.update_self,hadded.pools,hp]
    rfl
  rcases cpCreate_invariant totalsize isasymmetric
      (fun t => Kept t ∧ ∃ cp,t.pools w.nextPool=some cp ∧ cp.stacksize=stacksize)
      ⟨hstart,_,Function.update_self ..,rfl⟩ hadd with hsame|hkept
  · rwa [hsame]
  · exact hkept.1

/-- `dyco_coroutine_setStack` that does not reconfigure a pool. -/
theorem Kept.setStack (h : Kept w)
    (hkeep : reconfigures w (.setStack c stackptr stacksize)=false) :
    Kept (dycoCoroutineSetStack w c stackptr stacksize).2 := by
  unfold dycoCoroutineSetStack
  cases hc : w.co c with
  | none => exact h
  | some r =>
    dsimp only
    split_ifs with hsettable
    · refine h.coroSetstack hc fun p hp => ?_
      obtain ⟨cp,hcp,-⟩ := h.config c r p hc hp
      have hzero : stacksize=0 ∧ cp.stacksize=0 := by
        simpa [reconfigures,hc,hsettable,hp,hcp] using hkeep
      exact ⟨hzero.1,cp,hcp,hzero.2⟩
    · exact h

/-- The stack that `dyco_asymcororesume` sets goes to a coroutine without a pool. -/
theorem Kept.asymResume {inside : Bool} (h : Kept w) (hc : w.co c=some r)
    (hkeep : reconfigures w (.asymResume c inside)=false) :
    Kept (dycoAsymcororesume w c r inside) := by
  unfold dycoAsymcororesume
  split_ifs with hrefused hnested
  · exact h
  · refine Kept.modify ?_ sameStack_start fun _ => rfl
    refine h.setStack ?_
    simp only [reconfigures,hc,Option.any_some] at hkeep ⊢
    by_cases hsettable : r.settable=true
    · have hcpool : r.cpool=none := by
        simpa [hsettable,hnested.1,hnested.2,not_or.mp hrefused] using hkeep
      simp [hcpool]
    · simp [hsettable]
  · exact h.modify sameStack_start fun _ => rfl

/-- Every step that reconfigures no pool keeps the stacks of all. -/
theorem Kept.step (h : Kept w) (hkeep : reconfigures w a=false) (ht : step w a=some (.ok t)) :
    Kept t := by
  cases a with
  | create func arg isasymmetric isurgent =>
    cases ht
    exact h.create rfl rfl
  | poolCreate totalsize stacksize isasymmetric =>
    cases ht
    exact h.cpCreate totalsize stacksize isasymmetric
  | obtain p func arg isasymmetric isurgent =>
    rcases cpObtain_ok (Option.some.inj ht) with ⟨rfl,-⟩|⟨cp,c,rest,r,hp,hl,hc,rfl⟩
    · exact h
    · refine h.relist hc (sameStack_renewRecord ..) rfl hp _ rfl fun x hx => .inl ?_
      rw [hl]
      exact List.mem_cons_of_mem _ hx
  | setStack c stackptr stacksize =>
    cases ht
    exact h.setStack hkeep
  | resume c =>
    obtain ⟨r,-,ht⟩ := Option.map_eq_some_iff.mp ht
    cases ht
    exact h.modify sameStack_start fun _ => rfl
  | asymResume c inside =>
    obtain ⟨r,hc,ht⟩ := Option.map_eq_some_iff.mp ht
    cases ht
    exact h.asymResume hc hkeep
  | yield c cursize =>
    obtain ⟨r,hc,ht⟩ := Option.bind_eq_some_iff.mp ht
    split_ifs at ht
    cases ht
    exact h.savestk hc
  | mark c m =>
    obtain ⟨r,-,ht⟩ := Option.map_eq_some_iff.mp ht
    cases ht
    exact h.modify (sameStack_mark m) fun _ => rfl
  | giveBack c =>
    obtain ⟨r,hc,ht⟩ := Option.map_eq_some_iff.mp ht
    rcases cpReturn_ok ht with rfl|⟨p,cp,hcp,hp,rfl⟩
    · exact h
    · refine h.relist hc (sameStack_returned r) rfl hp
        {cp with freelist := c::cp.freelist,activenum := cp.activenum-1} rfl fun x hx => ?_
      rcases List.mem_cons.mp hx with rfl|hx
      · exact .inr ⟨rfl,hcp⟩
      · exact .inl hx
  | free c =>
    obtain ⟨r,hc,ht⟩ := Option.map_eq_some_iff.mp ht
    cases ht
    exact h.freecoro hc

/-! ## What the pool delivers -/

/-- The stack on which `init_coro` lets a coroutine run, with `none` for that of the
scheduler. -/
def runsOn (r : Coro) : Option Buffer := if r.status .ownstack then some r.stack else none

/-- The record of an obtained coroutine is that of a created one, but for the mark of the
pool and its stack. -/
structure Delivered (t : World) (cp : CoroPool) (p c : ℕ) (fresh r : Coro) : Prop where
  fields : r={fresh with
    status := r.status
    stack := r.stack
    stackSize := r.stackSize
    cpool := some p}
  status : ∀ f,f≠.ownstack → f≠.allocstackmem →
    r.status f=(decide (f=.incoropool) || fresh.status f)
  stack : Configured t.heap t.pageSize cp.stacksize c r

/-- No coroutine of a pool runs on memory of the program. -/
theorem Configured.not_user {pageSize : ℕ} (h : Configured heap pageSize stacksize c r)
    (addr : ℕ) : runsOn r≠some (.user addr) := by
  unfold runsOn
  rcases Nat.eq_zero_or_pos stacksize with hzero|hsize
  · rw [h.shared hzero]
    exact nofun
  · obtain ⟨hown,-,-,q,hq,-⟩ := h.own hsize
    rw [hown,hq]
    exact nofun

/-- As long as nobody gives a pooled coroutine another stack, a pool delivers coroutines
with the stack it was created with and otherwise the fields of new ones. -/
theorem pool_delivers_clean {schedId pageSize p func arg : ℕ} {isasymmetric isurgent : Bool}
    (h : Runs step (fun w a => reconfigures w a=false) (newWorld schedId pageSize) w)
    (hp : w.pools p=some cp) (havailable : 0<cp.totalsize-cp.activenum)
    (ht : step w (.obtain p func arg isasymmetric isurgent)=some (.ok t)) :
    ∃ c rest r,cp.freelist=c::rest ∧ t.co c=some r ∧
      Delivered t cp p c (createRecord w.nextCid func arg isasymmetric isurgent) r ∧
      ∀ addr,runsOn r≠some (.user addr) := by
  have hkept : Kept w := h.invariant Kept (kept_newWorld schedId pageSize)
    fun _ _ _ hi hkeep hs => hi.step hkeep hs
  rcases cpObtain_ok (Option.some.inj ht) with ⟨-,hnone⟩|⟨cp',c,rest,r,hp',hl,hc,rfl⟩
  · exact absurd havailable (not_lt.mpr (hnone cp hp))
  · cases hp.symm.trans hp'
    have hcpool := (hkept.free p cp hp c (hl ▸ List.mem_cons_self)).2 r hc
    obtain ⟨cp'',hp'',hconf⟩ := hkept.config c r p hc hcpool
    cases hp.symm.trans hp''
    have hnew := hconf.same (sameStack_renewRecord r w.nextCid func arg isasymmetric isurgent)
    refine ⟨c,rest,_,hl,Function.update_self ..,⟨?_,fun f hown halloc => ?_,hnew⟩,hnew.not_user⟩
    · rw [renewRecord,hcpool]
      rfl
    · cases f <;> cases isasymmetric <;> cases isurgent <;>
        first | rfl | exact absurd rfl hown | exact absurd rfl halloc

/-- A coroutine of a pool with stacks is obtained, runs, and is returned. -/
def usedOnce : List Act :=
  [.poolCreate 1 4096 false,.obtain 0 1 5 false true,.resume 0,
    .mark 0 ⟨[.sleeping,.waiting],3,900,some 8,6,-1⟩,.yield 0 200,.giveBack 0]

/-- A coroutine that was used once before is delivered like a new one. -/
theorem pool_delivers_clean_usedOnce : ∃ w t cp r,
    replayWhile step (fun w a => reconfigures w a=false) (newWorld 1 4096) usedOnce=some w ∧
    step w (.obtain 0 2 0 false false)=some (.ok t) ∧ t.co 0=some r ∧
    Delivered t cp 0 0 (createRecord w.nextCid 2 0 false false) r := by
  have hrun : ((replayWhile step (fun w a => reconfigures w a=false) (newWorld 1 4096) usedOnce).bind
      fun w => (replay step w [.obtain 0 2 0 false false]).map fun _ =>
        (w.pools 0).map fun cp => (cp.totalsize-cp.activenum,cp.freelist))=
      some (some (1,[0])) := by decide +kernel
  obtain ⟨w,hw,hrest⟩ := Option.bind_eq_some_iff.mp hrun
  obtain ⟨t,ht,hq⟩ := Option.map_eq_some_iff.mp hrest
  obtain ⟨cp,hp,hq⟩ := Option.map_eq_some_iff.mp hq
  simp only [Prod.mk.injEq] at hq
  obtain ⟨havailable,hfree⟩ := hq
  obtain ⟨c,rest,r,hl,hr,hdelivered,-⟩ := pool_delivers_clean (runs_of_replayWhile hw) hp
    (by rw [havailable]; decide) (step_of_replay ht)
  cases hfree.symm.trans hl
  exact ⟨w,t,cp,r,hw,step_of_replay ht,hr,hdelivered⟩

/-- A pool without stacks delivers a coroutine that runs on the memory of its last
user. -/
theorem pool_delivers_user_stack : ∃ w t cp r,
    Runs step (fun _ _ => True) (newWorld 1 4096) w ∧ w.pools 0=some cp ∧ cp.stacksize=0 ∧
    step w (.obtain 0 2 0 false false)=some (.ok t) ∧ t.co 0=some r ∧
    runsOn r=some (.user 7) := by
  have hrun : ((replay step (newWorld 1 4096) [.poolCreate 1 0 false,.obtain 0 1 5 false false,
      .setStack 0 (some 7) 8192,.resume 0,.giveBack 0]).bind fun w =>
      (replay step w [.obtain 0 2 0 false false]).map fun t =>
        ((w.pools 0).map fun cp => cp.stacksize,(t.co 0).map runsOn))=
      some (some 0,some (some (.user 7))) := by decide +kernel
  obtain ⟨w,hw,hrest⟩ := Option.bind_eq_some_iff.mp hrun
  obtain ⟨t,ht,hq⟩ := Option.map_eq_some_iff.mp hrest
  simp only [Prod.mk.injEq] at hq
  obtain ⟨cp,hp,hsize⟩ := Option.map_eq_some_iff.mp hq.1
  obtain ⟨r,hr,hruns⟩ := Option.map_eq_some_iff.mp hq.2
  exact ⟨w,t,cp,r,runs_of_replay hw,hp,hsize,step_of_replay ht,hr,hruns⟩

end DycoCoroutine.PoolStacks
