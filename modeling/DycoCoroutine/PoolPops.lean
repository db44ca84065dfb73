import DycoCoroutine.PoolOwnership

/-!
# Taking coroutines from a freelist

`cp_obtain`, a shrinking `cp_resize` and `cp_destroy` take coroutines from the
freelist without looking whether there is one; they rely on the sizes of the pool.
A pool that was resized below the number of its coroutines in use has more idle
coroutines than the sizes say, never fewer, so that every such pop finds one, unless
the pool was destroyed under a caller that is blocked in `cp_wait`. The release of an
idle coroutine is taken as succeeding here.
-/

namespace DycoCoroutine.PoolPops

open ScheduleState RunInvariant CoroutinePool PoolOwnership

/-- The release of an idle coroutine. Where the code would fail, the object is
freed. -/
def releaseIdle (isasymmetric : Bool) (s : Register) (c : Co) : Register :=
  match (if isasymmetric then freecoro s c else dycoAsymcoroFree s (s.co c).cid) with
  | .ok s => s
  | .error _ => {s with co := Function.update s.co c {s.co c with life := .freed}}

/-- One round of the loops of `cp_resize` and `cp_destroy`, whose release succeeds. An
empty freelist is an underflow. -/
def cpDropFreely (p : ℕ) (isasymmetric : Bool) (w : World) : Except Fault World :=
  match w.pools p with
  | none => .error .undefined
  | some cp => match cp.freelist with
    | [] => .error .undefined
    | c::rest => .ok (putPool {w with reg := releaseIdle isasymmetric w.reg c} p
      (takeFirst (releaseIdle isasymmetric w.reg c) cp c rest))

/-- `cp_resize` -/
def cpResizeFreely (w : World) (p : ℕ) (newsize : ℤ) (isasymmetric : Bool) : Except Fault World :=
  match w.pools p with
  | none => .error .undefined
  | some cp =>
    if newsize=cp.totalsize then .ok w
    else if cp.totalsize<newsize then
      (times (cpGrow p isasymmetric) (newsize-cp.totalsize).toNat w).map (setTotalsize p newsize)
    else (times (cpDropFreely p isasymmetric) (dropCount cp newsize) w).map (setTotalsize p newsize)

/-- `cp_destroy` -/
def cpDestroyFreely (w : World) (p : ℕ) (isasymmetric : Bool) : Except Fault World :=
  match w.pools p with
  | none => .error .undefined
  | some cp =>
    if cp.activenum≠0 then .ok (reply w (.destroy p (-1)))
    else (times (cpDropFreely p isasymmetric) cp.totalsize.toNat w).map fun w =>
      reply {w with pools := Function.update w.pools p none} (.destroy p 0)

/-- One step of the coroutines and their pools. -/
def stepFreely (w : World) : Act → Option (Except Fault World)
  | .resize p newsize isasymmetric => some (cpResizeFreely w p newsize isasymmetric)
  | .destroy p isasymmetric => some (cpDestroyFreely w p isasymmetric)
  | a => step w a

variable {w t u : World} {s : Register} {a : Act} {p : ℕ} {cp : Pool} {c : Co} {v : Waiter}
  {bound : ℕ → ℤ → List Co → Prop} {isasymmetric : Bool}

/-- A coroutine that is not live is freed without being unregistered. -/
theorem sound_freed (h : Sound s) (hc : (s.co c).life=.idle) :
    Sound {s with co := Function.update s.co c {s.co c with life := .freed}} := by
  have hold : ∀ d≠c,Function.update s.co c {s.co c with life := .freed} d=s.co d :=
    fun d hd => Function.update_of_ne hd ..
  refine ⟨fun k d hk => ?_,fun d hd => ?_,fun d hd => ?_⟩
  · have hlive := h.entries k d hk
    have hne : d≠c := by
      rintro rfl
      cases hc.symm.trans hlive.1
    dsimp only
    rw [hold d hne]
    exact hlive
  · by_cases hne : d=c
    · subst hne
      simp at hd
    · dsimp only at hd ⊢
      rw [hold d hne] at hd ⊢
      exact h.sched d hd
  · have hne : d≠c := by
      rintro rfl
      cases hc.symm.trans (h.fresh d hd).1
    dsimp only
    rw [hold d hne]
    exact h.fresh d hd

/-- A release that is taken as succeeding changes the object itself, or the one found
under its cid. -/
theorem sound_releaseIdle (isasymmetric : Bool) (h : Sound s) (hc : (s.co c).life=.idle) :
    Sound (releaseIdle isasymmetric s c) ∧ ∃ e,(e=c ∨ (s.co e).life=.live) ∧
      (∀ x≠e,(releaseIdle isasymmetric s c).co x=s.co x) ∧
      ((releaseIdle isasymmetric s c).co e).life≠.live := by
  unfold releaseIdle
  split
  next hok =>
    obtain ⟨hs,-,hrest⟩ := h.releaseIdle hc hok
    exact ⟨hs,hrest⟩
  · refine ⟨sound_freed h hc,c,.inl rfl,fun x hx => Function.update_of_ne hx ..,?_⟩
    simp

/-- One round of the loops that release idle coroutines. -/
theorem resizing_cpDropFreely {T A k : ℤ} (h : Resizing bound p T A k w)
    (hleak : ∀ c x l,bound p x l → bound p x (c::l))
    (ht : cpDropFreely p isasymmetric w=.ok t) : Resizing bound p T A (k-1) t := by
  obtain ⟨ho,cp,hp,hT,hA⟩ := h
  simp only [cpDropFreely,hp] at ht
  split at ht
  · cases ht
  next c rest hfree =>
    cases ht
    have hidle := ((ho.stocked p cp hp).idle c (hfree ▸ List.mem_cons_self)).1
    obtain ⟨hs,d,hd,hother,hlife⟩ := sound_releaseIdle isasymmetric ho.sound hidle
    exact Resizing.drop ⟨ho,cp,hp,hT,hA⟩ hp hfree hd hs hother hlife (.inr (hleak c))

/-- `cp_resize` leaves the freelists long enough. -/
theorem owned_cpResizeFreely {newsize : ℤ} (h : Owned (fun _ x _ => 0≤x) w)
    (ht : cpResizeFreely w p newsize isasymmetric=.ok t) : Owned (fun _ x _ => 0≤x) t := by
  unfold cpResizeFreely at ht
  split at ht
  · cases ht
  next cp hp =>
    refine h.resized hp
      (fun _ _ _ _ hb hf => resizing_cpDropFreely hb (fun _ _ _ hx => hx) hf)
      (fun hbelow n _ => ?_) ht
    omega

/-- `cp_destroy` concerns no other pool. -/
theorem owned_cpDestroyFreely (h : Owned bound w) (ht : cpDestroyFreely w p isasymmetric=.ok t) :
    Owned bound t := by
  unfold cpDestroyFreely at ht
  split at ht
  · cases ht
  next cp hp =>
    refine h.emptied hp (fun _ _ _ hb hf => resizing_cpDropFreely hb ?_ hf) ht
    exact fun _ _ _ _ hq => absurd rfl hq

/-- The freelist stays long enough in every step. -/
theorem owned_stepFreely (h : Owned (fun _ x _ => 0≤x) w) (ha : stepFreely w a=some (.ok t)) :
    Owned (fun _ x _ => 0≤x) t := by
  cases a with
  | resize p newsize isasymmetric => exact owned_cpResizeFreely h (Option.some.inj ha)
  | destroy p isasymmetric => exact owned_cpDestroyFreely h (Option.some.inj ha)
  | create => exact h.step_nonneg (a := .create) ha
  | createUrgent => exact h.step_nonneg (a := .createUrgent) ha
  | asymCreate => exact h.step_nonneg (a := .asymCreate) ha
  | exit c => exact h.step_nonneg (a := .exit c) ha
  | abort c => exact h.step_nonneg (a := .abort c) ha
  | asymFree cid => exact h.step_nonneg (a := .asymFree cid) ha
  | poolCreate totalsize isasymmetric => exact h.step_nonneg (a := .poolCreate ..) ha
  | obtain caller context p timeout isasymmetric fd allocated =>
    exact h.step_nonneg (a := .obtain ..) ha
  | resume caller => exact h.step_nonneg (a := .resume caller) ha
  | asymReturn cid => exact h.step_nonneg (a := .asymReturn cid) ha
  | openOther fd => exact h.step_nonneg (a := .openOther fd) ha
  | closeOther fd => exact h.step_nonneg (a := .closeOther fd) ha

/-- As many rounds as there are idle coroutines go through. -/
theorem exists_times_cpDropFreely {n : ℕ} (isasymmetric : Bool) (hp : w.pools p=some cp)
    (hn : n ≤ cp.freelist.length) : ∃ u,times (cpDropFreely p isasymmetric) n w=.ok u := by
  induction n generalizing w cp with
  | zero => exact ⟨w,rfl⟩
  | succ n ih =>
    cases hfree : cp.freelist with
    | nil =>
      rw [hfree] at hn
      cases hn
    | cons c rest =>
      rw [hfree] at hn
      have hround : cpDropFreely p isasymmetric w=
          .ok (putPool {w with reg := releaseIdle isasymmetric w.reg c} p
            (takeFirst (releaseIdle isasymmetric w.reg c) cp c rest)) := by
        simp only [cpDropFreely,hp,hfree]
      have hrest : n ≤ (takeFirst (releaseIdle isasymmetric w.reg c) cp c rest).freelist.length := by
        rw [takeFirst_freelist]
        exact Nat.le_of_succ_le_succ hn
      obtain ⟨u,hu⟩ := ih (w := putPool {w with reg := releaseIdle isasymmetric w.reg c} p
        (takeFirst (releaseIdle isasymmetric w.reg c) cp c rest)) (putPool_self ..) hrest
      exact ⟨u,by rw [times,hround]; exact hu⟩

/-- No pool goes and no caller blocks. -/
structure Keeps (w t : World) : Prop where
  /-- The callers. -/
  blocked : t.blocked⊆w.blocked
  /-- The pools. -/
  pools : ∀ q,(w.pools q).isSome → (t.pools q).isSome

/-- Nothing happens. -/
theorem Keeps.refl (w : World) : Keeps w w := ⟨List.Subset.refl _,fun _ hq => hq⟩

/-- One thing after the other. -/
theorem Keeps.trans (h : Keeps w u) (k : Keeps u t) : Keeps w t :=
  ⟨List.Subset.trans k.blocked h.blocked,fun q hq => k.pools q (h.pools q hq)⟩

/-- A pool is replaced. -/
theorem keeps_putPool (hblocked : t.blocked⊆w.blocked)
    (hpools : t.pools=Function.update w.pools p (some cp)) : Keeps w t := by
  refine ⟨hblocked,fun q hq => ?_⟩
  rw [hpools]
  by_cases hqp : q=p
  · rw [hqp,Function.update_self]
    rfl
  · rwa [Function.update_of_ne hqp]

/-- A notification. -/
theorem keeps_notifyFirst (ht : notifyFirst w p cp=.ok t) : Keeps w t := by
  unfold notifyFirst at ht
  split at ht
  · cases ht
    exact keeps_putPool (List.Subset.refl _) rfl
  · split at ht
    · cases ht
    · cases ht
      exact keeps_putPool (List.Subset.refl _) rfl

/-- A coroutine goes back to its pool. -/
theorem keeps_cpReturn (ht : cpReturn w c=.ok t) : Keeps w t := by
  unfold cpReturn at ht
  split at ht
  · cases ht
    exact .refl _
  · split at ht
    · cases ht
    · obtain ⟨reg,-,ht⟩ := bind_eq_ok ht
      have hkeeps := keeps_notifyFirst ht
      exact ⟨hkeeps.blocked,hkeeps.pools⟩

/-- An asymmetric coroutine goes back to its pool. -/
theorem keeps_dycoAsymcpoolReturn {cid : ℤ} (ht : dycoAsymcpoolReturn w cid=.ok t) : Keeps w t := by
  unfold dycoAsymcpoolReturn at ht
  split at ht
  · cases ht
    exact .refl _
  · exact keeps_cpReturn ht

/-- The register is another matter. -/
theorem keeps_onRegister {r : Except Fault Register} (ht : onRegister w r=.ok t) : Keeps w t := by
  obtain ⟨reg,-,rfl⟩ := map_eq_ok ht
  exact ⟨List.Subset.refl _,fun _ hq => hq⟩

/-- `coro_abort` -/
theorem keeps_coroAbort (ht : coroAbort w c=.ok t) : Keeps w t := by
  unfold coroAbort at ht
  split_ifs at ht
  · exact keeps_dycoAsymcpoolReturn ht
  · exact keeps_cpReturn ht
  · exact keeps_onRegister ht
  · exact keeps_onRegister ht

/-- A killed coroutine. -/
theorem keeps_resumeKilled (ht : resumeKilled w c=.ok t) : Keeps w t := by
  unfold resumeKilled at ht
  split at ht
  · cases ht
    exact .refl _
  · split_ifs at ht
    obtain ⟨u,hu,rfl⟩ := map_eq_ok ht
    have hkeeps := keeps_coroAbort hu
    exact ⟨hkeeps.blocked,hkeeps.pools⟩

/-- A coroutine that has exited. -/
theorem keeps_resumeExited (ht : resumeExited w c=.ok t) : Keeps w t := by
  unfold resumeExited at ht
  split_ifs at ht
  · exact keeps_cpReturn ht
  · exact keeps_onRegister ht

/-- `cp_create` -/
theorem keeps_cpCreate (w : World) (totalsize : ℤ) (isasymmetric : Bool) :
    Keeps w (cpCreate w totalsize isasymmetric) := by
  unfold cpCreate
  split_ifs
  · exact .refl _
  · exact keeps_putPool (List.Subset.refl _) rfl

/-- One round of the loop of `cp_resize` that increases a pool. -/
theorem keeps_cpGrow (ht : cpGrow p isasymmetric w=.ok t) : Keeps w t := by
  unfold cpGrow at ht
  split at ht
  · cases ht
  · have hkeeps := keeps_notifyFirst ht
    exact ⟨hkeeps.blocked,hkeeps.pools⟩

/-- One round of the loops that release idle coroutines. -/
theorem keeps_cpDropFreely (ht : cpDropFreely p isasymmetric w=.ok t) : Keeps w t := by
  unfold cpDropFreely at ht
  split at ht
  · cases ht
  · split at ht
    · cases ht
    · cases ht
      exact keeps_putPool (List.Subset.refl _) rfl

/-- A loop whose rounds keep the pools. -/
theorem keeps_times {f : World → Except Fault World} {n : ℕ}
    (hf : ∀ b b',f b=.ok b' → Keeps b b') (ht : times f n w=.ok t) : Keeps w t :=
  times_invariant (fun _ b => Keeps w b) (fun _ _ _ hb h => hb.trans (hf _ _ h)) (i := 0)
    (.refl w) ht

/-- The end of a resize. -/
theorem keeps_setTotalsize (newsize : ℤ) : Keeps w (setTotalsize p newsize w) := by
  refine ⟨List.Subset.refl _,fun q hq => ?_⟩
  unfold setTotalsize
  by_cases hqp : q=p
  · subst hqp
    simpa using hq
  · simpa [hqp] using hq

/-- `cp_resize` -/
theorem keeps_cpResizeFreely {newsize : ℤ} (ht : cpResizeFreely w p newsize isasymmetric=.ok t) :
    Keeps w t := by
  unfold cpResizeFreely at ht
  split at ht
  · cases ht
  · split_ifs at ht
    · cases ht
      exact .refl _
    · obtain ⟨u,hu,rfl⟩ := map_eq_ok ht
      exact (keeps_times (fun _ _ h => keeps_cpGrow h) hu).trans (keeps_setTotalsize newsize)
    · obtain ⟨u,hu,rfl⟩ := map_eq_ok ht
      exact (keeps_times (fun _ _ h => keeps_cpDropFreely h) hu).trans (keeps_setTotalsize newsize)

/-- The rest of `cp_obtain`. -/
theorem keeps_cpObtainRest {caller : Co} {timeout : ℤ}
    (ht : cpObtainRest w caller p cp timeout isasymmetric=.ok t) : Keeps w t := by
  unfold cpObtainRest cpTake at ht
  split_ifs at ht
  · cases ht
    exact ⟨List.Subset.refl _,fun _ hq => hq⟩
  · split at ht
    · cases ht
    · cases ht
      exact keeps_putPool (List.Subset.refl _) rfl

/-- A blocked caller goes on. -/
theorem keeps_afterYield (ht : afterYield w v=.ok t) : Keeps w t := by
  unfold afterYield at ht
  split at ht
  · cases ht
  · dsimp only at ht
    split_ifs at ht
    · have hkeeps := keeps_cpObtainRest ht
      exact ⟨List.Subset.trans hkeeps.blocked (List.filter_subset_self _),hkeeps.pools⟩
    · exact (keeps_putPool (List.filter_subset_self _) rfl).trans (keeps_cpObtainRest ht)

/-- Every pool that a blocked caller waits for is there. -/
def Served (w : World) : Prop := ∀ v∈w.blocked,(w.pools v.pool).isSome

/-- No pool goes. -/
theorem Served.keeps (h : Served w) (hk : Keeps w t) : Served t :=
  fun v hv => hk.pools _ (h v (hk.blocked hv))

/-- `cp_obtain` blocks on a pool that is there. -/
theorem Served.cpObtain {caller : Co} {context : Context} {timeout fd : ℤ} {allocated : Bool}
    (h : Served w) (ht : cpObtain w caller context p timeout isasymmetric fd allocated=.ok t) :
    Served t := by
  unfold CoroutinePool.cpObtain at ht
  split at ht
  · cases ht
  next cp hp =>
    split_ifs at ht
    · exact h.keeps (keeps_cpObtainRest ht)
    · cases ht
      have hput := keeps_putPool (w := w) (t := putPool {w with fds := EventFd.openEvent w.fds fd} p
        {cp with sublist := cp.sublist++[fd]}) (List.Subset.refl _) rfl
      intro v hv
      rcases List.mem_append.mp hv with hv|hv
      · exact hput.pools _ (h v hv)
      · rw [List.mem_singleton.mp hv]
        exact hput.pools p (by rw [hp]; rfl)
    · cases ht
      exact h

/-- No pool is destroyed while a caller is blocked on it, notified or not. -/
def destroysUnused (w : World) : Act → Bool
  | .destroy q _ => (w.pools q).all fun cq => cq.activenum≠0 || w.blocked.all fun v => v.pool≠q
  | _ => true

/-- A pool is destroyed on which nobody is blocked. -/
theorem Served.cpDestroyFreely (h : Served w)
    (hc : destroysUnused w (.destroy p isasymmetric)=true)
    (ht : cpDestroyFreely w p isasymmetric=.ok t) : Served t := by
  unfold PoolPops.cpDestroyFreely at ht
  split at ht
  · cases ht
  next cp hp =>
    split_ifs at ht with hactive
    · cases ht
      exact h
    · obtain ⟨u,hu,rfl⟩ := map_eq_ok ht
      have hkeeps := keeps_times (fun _ _ h => keeps_cpDropFreely h) hu
      have hfree : ∀ v∈w.blocked,v.pool≠p := by simpa [destroysUnused,hp,hactive] using hc
      intro v hv
      show (Function.update u.pools p none v.pool).isSome
      rw [Function.update_of_ne (hfree v (hkeeps.blocked hv))]
      exact hkeeps.pools _ (h v (hkeeps.blocked hv))

/-- Every step that meets the condition keeps the pools of the blocked callers. -/
theorem served_stepFreely (h : Served w) (hc : destroysUnused w a=true)
    (ha : stepFreely w a=some (.ok t)) : Served t := by
  cases a with
  | resize p newsize isasymmetric => exact h.keeps (keeps_cpResizeFreely (Option.some.inj ha))
  | destroy p isasymmetric => exact h.cpDestroyFreely hc (Option.some.inj ha)
  | create => cases happens_of_step (a := .create) ha; exact h
  | createUrgent => cases happens_of_step (a := .createUrgent) ha; exact h
  | asymCreate => cases happens_of_step (a := .asymCreate) ha; exact h
  | exit c =>
    cases happens_of_step (a := .exit c) ha with
    | exit _ ht => exact h.keeps (keeps_resumeExited ht)
  | abort c =>
    cases happens_of_step (a := .abort c) ha with
    | abort _ ht => exact h.keeps (keeps_resumeKilled ht)
  | asymFree cid =>
    cases happens_of_step (a := .asymFree cid) ha with
    | asymFree ht => exact h.keeps (keeps_onRegister ht)
  | poolCreate totalsize isasymmetric =>
    cases happens_of_step (a := .poolCreate totalsize isasymmetric) ha
    exact h.keeps (keeps_cpCreate ..)
  | obtain caller context p timeout isasymmetric fd allocated =>
    cases happens_of_step (a := .obtain caller context p timeout isasymmetric fd allocated) ha with
    | obtain _ _ ht => exact h.cpObtain ht
  | resume caller =>
    cases happens_of_step (a := .resume caller) ha with
    | resume _ ht => exact h.keeps (keeps_afterYield ht)
  | asymReturn cid =>
    cases happens_of_step (a := .asymReturn cid) ha with
    | asymReturn ht => exact h.keeps (keeps_dycoAsymcpoolReturn ht)
  | openOther fd => cases happens_of_step (a := .openOther fd) ha; exact h
  | closeOther fd => cases happens_of_step (a := .closeOther fd) ha; exact h

/-- In every run in which no pool is destroyed while a caller is blocked on it, the pool of
every blocked caller is there, and the freelist of a pool is at least as long as
`totalsize-activenum`. So `cp_obtain` finds a coroutine once `cp_wait` has counted one, and
the loops of a shrinking `cp_resize` and of `cp_destroy` go through. -/
theorem pops_find_idle {schedId : ℕ}
    (h : Runs stepFreely (fun w a => destroysUnused w a=true) (newScheduler schedId) w) :
    (∀ v∈w.blocked,(w.pools v.pool).isSome) ∧ ∀ p cp,w.pools p=some cp →
    cp.totalsize-cp.activenum≤cp.freelist.length ∧
    (∀ u caller timeout isasymmetric sublist,
      ∃ t,cpObtainRest u caller p {cp with sublist := sublist} timeout isasymmetric=.ok t) ∧
    (∀ newsize isasymmetric,newsize≤cp.totalsize →
      ∃ t,cpResizeFreely w p newsize isasymmetric=.ok t) ∧
    ∀ isasymmetric,∃ t,cpDestroyFreely w p isasymmetric=.ok t := by
  obtain ⟨ho,hserved⟩ : Owned (fun _ x _ => 0≤x) w ∧ Served w :=
    h.invariant (fun w => Owned (fun _ x _ => 0≤x) w ∧ Served w)
      ⟨owned_newScheduler schedId,by simp [Served,newScheduler]⟩
      fun _ _ _ hw hc ha => ⟨owned_stepFreely hw.1 ha,served_stepFreely hw.2 hc ha⟩
  refine ⟨hserved,fun p cp hp => ?_⟩
  have hlen : cp.totalsize-cp.activenum≤cp.freelist.length := sub_nonneg.mp (ho.bounded p cp hp)
  have hactive : 0≤cp.activenum := by
    rw [← (ho.stocked p cp hp).active]
    exact Int.natCast_nonneg _
  refine ⟨hlen,fun u caller timeout isasymmetric sublist => ?_,fun newsize isasymmetric hle => ?_,
    fun isasymmetric => ?_⟩
  · unfold cpObtainRest cpTake
    split_ifs with hnone
    · exact ⟨_,rfl⟩
    · split
      next hfree =>
        rw [hfree] at hlen
        exact absurd hlen hnone
      · exact ⟨_,rfl⟩
  · have hcount : dropCount cp newsize ≤ cp.freelist.length := by
      unfold dropCount
      split_ifs <;> omega
    obtain ⟨u,hu⟩ := exists_times_cpDropFreely isasymmetric hp hcount
    simp only [cpResizeFreely,hp,if_neg (not_lt.mpr hle),hu]
    split_ifs
    · exact ⟨_,rfl⟩
    · exact ⟨_,rfl⟩
  · by_cases hzero : cp.activenum=0
    · obtain ⟨u,hu⟩ := exists_times_cpDropFreely isasymmetric hp
        (n := cp.totalsize.toNat) (by omega)
      simp only [cpDestroyFreely,hp,hzero,hu]
      exact ⟨_,rfl⟩
    · simp only [cpDestroyFreely,hp]
      rw [if_pos hzero]
      exact ⟨_,rfl⟩

/-- A caller is blocked on a pool of one when its coroutine returns. -/
def blockedOnPool : List Act :=
  [.create,.poolCreate 1 false,.obtain 9 .outside 0 0 false 4 true,
    .obtain 0 .symmetric 0 (-1) false 5 true,.exit 1]

/-- `cp_destroy` then takes the idle coroutine and frees the pool. The caller, which was
notified, goes on with a pool that says that one is available and whose freelist is
empty. -/
theorem destroyed_under_caller :
    ∃ w u t cp,Runs stepFreely (fun _ _ => True) (newScheduler 1) w ∧
      times (cpDropFreely 0 false) 1 w=.ok u ∧ u.pools 0=some cp ∧ cp.freelist=[] ∧
      cp.totalsize-cp.activenum=1 ∧ cpTake u 0 0 cp (-1) false=.error .undefined ∧
      stepFreely w (.destroy 0 false)=some (.ok t) ∧ t.pools 0=none ∧
      stepFreely t (.resume 0)=some (.error .undefined) := by
  have h : ((replay stepFreely (newScheduler 1) blockedOnPool).bind fun w =>
      (times (cpDropFreely 0 false) 1 w).toOption.bind fun u => (u.pools 0).bind fun cp =>
      (replay stepFreely w [.destroy 0 false]).map fun t => (cp.freelist,cp.totalsize-cp.activenum,
        (t.pools 0).isNone,(t.blocked.find? fun v => v.caller=0).map Waiter.pool))=
      some ([],1,true,some 0) := by decide +kernel
  obtain ⟨w,hw,h⟩ := Option.bind_eq_some_iff.mp h
  obtain ⟨u,hu,h⟩ := Option.bind_eq_some_iff.mp h
  obtain ⟨cp,hp,h⟩ := Option.bind_eq_some_iff.mp h
  obtain ⟨t,ht,h⟩ := Option.map_eq_some_iff.mp h
  simp only [Prod.mk.injEq] at h
  obtain ⟨hfree,hsize,hnone,hcaller⟩ := h
  obtain ⟨v,hv,hpool⟩ := Option.map_eq_some_iff.mp hcaller
  have hgone : t.pools 0=none := Option.isNone_iff_eq_none.mp hnone
  refine ⟨w,u,t,cp,runs_of_replay hw,ok_of_toOption hu,hp,hfree,hsize,?_,step_of_replay ht,hgone,?_⟩
  · simp only [cpTake,hfree]
  · simp only [stepFreely,step,hv,afterYield,hpool,hgone]

/-- A pool of three in use shrinks to one and grows to two again, while its coroutines
return. -/
def shrinkAndGrow : List Act :=
  [.poolCreate 3 false,.obtain 0 .outside 0 0 false 5 true,.obtain 0 .outside 0 0 false 5 true,
    .obtain 0 .outside 0 0 false 5 true,.resize 0 1 false,.exit 0,.exit 1,.resize 0 2 false]

theorem pops_find_idle_shrinkAndGrow :
    ∃ w cp,replayWhile stepFreely (fun w a => destroysUnused w a=true) (newScheduler 1)
        shrinkAndGrow=some w ∧ w.pools 0=some cp ∧
      cp.totalsize=2 ∧ cp.activenum=1 ∧ cp.freelist=[3,1,0] ∧
      cp.totalsize-cp.activenum≤cp.freelist.length ∧
      (∃ t,cpResizeFreely w 0 0 false=.ok t) ∧ ∃ t,cpDestroyFreely w 0 false=.ok t := by
  have h : ((replayWhile stepFreely (fun w a => destroysUnused w a=true) (newScheduler 1)
      shrinkAndGrow).bind fun w => (w.pools 0).map fun cp =>
        (cp.totalsize,cp.activenum,cp.freelist))=some (2,1,[3,1,0]) := by decide +kernel
  obtain ⟨w,hw,hq⟩ := Option.bind_eq_some_iff.mp h
  obtain ⟨cp,hp,hq⟩ := Option.map_eq_some_iff.mp hq
  simp only [Prod.mk.injEq] at hq
  obtain ⟨hlen,-,hresize,hdestroy⟩ := (pops_find_idle (runs_of_replayWhile hw)).2 0 cp hp
  exact ⟨w,cp,hw,hp,hq.1,hq.2.1,hq.2.2,hlen,hresize 0 false (by omega),hdestroy false⟩

end DycoCoroutine.PoolPops
