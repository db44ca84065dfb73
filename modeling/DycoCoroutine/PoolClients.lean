import DycoCoroutine.CoroutinePool

/-!
# Clients of the machine of the pools

A machine that has a register and pools of its own, on which nobody waits, is served by
the machine of the pools as long as the two agree. What the client says about the
register is a predicate here. For every such client the rules tell how the pools are
filled, how a coroutine is taken from them and how it comes back.
-/

namespace DycoCoroutine.PoolClients

open ScheduleState CoroutinePool

variable {A A' : Register → Prop} {pools : ℕ → Option CoroPool} {n p : ℕ} {w : World}
  {r : Register} {c : Co} {cp : CoroPool} {cq : Pool} {isasymmetric : Bool}

/-- A pool on which nobody waits, and its fields alone. -/
structure Same (cp : CoroPool) (cq : Pool) : Prop where
  totalsize : cq.totalsize=cp.totalsize
  activenum : cq.activenum=cp.activenum
  freelist : cq.freelist=cp.freelist
  sublist : cq.sublist=[]

/-- The register is as the client says, the pools are those of the client, and `n` is the
name of the next one. -/
structure Serves (A : Register → Prop) (pools : ℕ → Option CoroPool) (n : ℕ) (w : World) :
    Prop where
  agrees : A w.reg
  pools : ∀ p cp,pools p=some cp → ∃ cq,w.pools p=some cq ∧ Same cp cq
  nextPool : w.nextPool=n
  blocked : w.blocked=[]
  fd : w.fds 0=none

/-- The register is replaced. -/
theorem Serves.setReg (h : Serves A pools n w) (hr : A' r) : Serves A' pools n {w with reg := r} :=
  ⟨hr,h.pools,h.nextPool,h.blocked,h.fd⟩

/-- The log of replies is no concern of the client. -/
theorem Serves.reply (h : Serves A pools n w) (x : Reply) : Serves A pools n (reply w x) :=
  ⟨h.agrees,h.pools,h.nextPool,h.blocked,h.fd⟩

/-- A pool is replaced on both sides. -/
theorem Serves.put (h : Serves A pools n w) (p : ℕ) (hsame : Same cp cq) :
    Serves A (Function.update pools p (some cp)) n (putPool w p cq) := by
  refine ⟨h.agrees,fun q cp' hq => ?_,h.nextPool,h.blocked,h.fd⟩
  by_cases hqp : q=p
  · subst hqp
    rw [Function.update_self] at hq
    cases hq
    exact ⟨cq,putPool_self ..,hsame⟩
  · rw [Function.update_of_ne hqp] at hq
    rw [putPool_of_ne hqp]
    exact h.pools q cp' hq

/-- `cp_obtain` where a coroutine is available. -/
theorem Serves.take {rest : List Co} (h : Serves A pools n w) (hp : pools p=some cp)
    (havail : 0<cp.totalsize-cp.activenum) (hlist : cp.freelist=c::rest)
    (hr : A' (register (renew w.reg c isasymmetric) c)) :
    ∃ w',cpObtain w 0 .outside p 0 isasymmetric 0 true=.ok w' ∧ Serves A' (Function.update pools p
      (some {cp with freelist := rest,activenum := cp.activenum+1})) n w' := by
  obtain ⟨cq,hcq,hsame⟩ := h.pools p cp hp
  rw [← hsame.totalsize,← hsame.activenum] at havail
  have htaken : Same {cp with freelist := rest,activenum := cp.activenum+1}
      {cq with freelist := rest,activenum := cq.activenum+1,out := c::cq.out} :=
    ⟨hsame.totalsize,congrArg (·+1) hsame.activenum,rfl,hsame.sublist⟩
  refine ⟨_,?_,((h.setReg hr).put p htaken).reply (.obtain 0 p 0 w.reg.nextCid)⟩
  simp only [cpObtain,hcq,havail,true_or,if_true,cpObtainRest,not_le.mpr havail,if_false,cpTake,
    hsame.freelist.trans hlist]

/-- `cp_return` of a coroutine of a pool. -/
theorem Serves.giveBack (h : Serves A pools n w) (hc : (w.reg.co c).cpool=some p)
    (hp : pools p=some cp) (hr : unregister w.reg c .idle=.ok r) (ha : A' r) :
    ∃ w',cpReturn w c=.ok w' ∧ Serves A' (Function.update pools p
      (some {cp with freelist := c::cp.freelist,activenum := cp.activenum-1})) n w' := by
  obtain ⟨cq,hcq,hsame⟩ := h.pools p cp hp
  have hback : Same {cp with freelist := c::cp.freelist,activenum := cp.activenum-1}
      {cq with freelist := c::cq.freelist,activenum := cq.activenum-1,out := cq.out.erase c} :=
    ⟨hsame.totalsize,congrArg (·-1) hsame.activenum,congrArg (c::·) hsame.freelist,hsame.sublist⟩
  refine ⟨_,?_,(h.setReg ha).put p hback⟩
  simp only [cpReturn,hc,hcq,hr,notifyFirst,hsame.sublist]
  rfl

section Filling

variable {σ : Type*} {B : σ → Register → Prop} {P : σ → ℕ → Option CoroPool} {add : σ → σ}

/-- A round of the loop of `cp_create` does to the client what it does to the register: a
new object at the head of the freelist. -/
def Adds (B : σ → Register → Prop) (P : σ → ℕ → Option CoroPool) (add : σ → σ) (p : ℕ)
    (isasymmetric : Bool) : Prop :=
  ∀ s r cp,B s r → P s p=some cp →
    B (add s) (newcoro r ⟨.idle,0,false,isasymmetric,true,some p⟩) ∧
    P (add s)=Function.update (P s) p (some {cp with freelist := r.nextCo::cp.freelist})

/-- The loop of `cp_create`, by induction on the rounds that are left. -/
theorem Adds.fill (hadd : Adds B P add p isasymmetric) (k : ℕ) {s : σ} (hs : B s r)
    (hp : P s=Function.update pools p (some cp)) (hsame : Same cp cq) :
    B (add^[k] s) (cpFill p isasymmetric k r cq).1 ∧ ∃ cp',
      P (add^[k] s)=Function.update pools p (some cp') ∧
      Same cp' (cpFill p isasymmetric k r cq).2 := by
  induction k generalizing s r cp cq with
  | zero => exact ⟨hs,cp,hp,hsame⟩
  | succ k ih =>
    -- the pool that the loop fills is replaced in every round, and no other one
    obtain ⟨hs',hp'⟩ := hadd s r cp hs (by rw [hp,Function.update_self])
    rw [hp,Function.update_idem] at hp'
    rw [Function.iterate_succ_apply]
    exact ih hs' hp' ⟨hsame.totalsize,hsame.activenum,congrArg (r.nextCo::·) hsame.freelist,
      hsame.sublist⟩

/-- `cp_create`, if the client gives the pool its next name. -/
theorem Serves.poolCreate {totalsize : ℤ} {stacksize : ℕ} {s : σ} (h : Serves A pools n w)
    (hadd : Adds B P add n isasymmetric) (hs : B s w.reg)
    (hp : P s=Function.update pools n (some ⟨totalsize,0,stacksize,[]⟩)) (hn : ¬totalsize≤0) :
    Serves (B (add^[totalsize.toNat] s)) (P (add^[totalsize.toNat] s)) (n+1)
      (cpCreate w totalsize isasymmetric) ∧
    ∃ cp,P (add^[totalsize.toNat] s)=Function.update pools n (some cp) := by
  obtain ⟨hfill,cp,hcp,hsame⟩ := hadd.fill totalsize.toNat hs hp
    (show Same _ ⟨totalsize,0,[],[],[],[],[],[]⟩ from ⟨rfl,rfl,rfl,rfl⟩)
  have hput := (h.setReg hfill).put n hsame
  rw [cpCreate,if_neg hn,h.nextPool]
  exact ⟨⟨hput.agrees,hcp ▸ hput.pools,rfl,hput.blocked,hput.fd⟩,cp,hcp⟩

end Filling

end DycoCoroutine.PoolClients
