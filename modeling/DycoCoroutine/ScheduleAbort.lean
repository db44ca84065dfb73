import DycoCoroutine.CoroutineHops

/-!
# The abort of a scheduler

`schedule_abort` releases coroutines that `cid_co_map` leads to, without
looking at the containers that still refer to them. A coroutine that is alone in
its slot is released; of two in a slot the second is passed over, and with
more the process is lost. The abort touches no ready queue and not the tree,
and adds nothing to `fd_co_map`. What can happen afterwards touches no container
at all, because the cid table is gone.
-/

namespace DycoCoroutine.ScheduleAbort

open ScheduleState ScheduleOps ScheduleRun ScheduleControl CoroutineStanding ScheduleEffect
open CoroutineHops KeyedSet RunInvariant SlottedMap

variable {s t : Sched} {a : Act} {c : Co}

/-- The containers of the scheduler and the kernel tables. -/
def containers (s : Sched) : List Co×List Co×List Co×CoMap×CoMap×List ℤ×List ℤ :=
  (s.urgentReady,s.ready,s.sleeping,s.fdCoMap,s.cidCoMap,s.openFds,s.epollSet)

theorem containers_cpCreate (p : ℕ) (totalsize : ℤ) (stacksize : ℕ) :
    containers (cpCreate s p totalsize stacksize)=containers s := by
  have hfill : ∀ n s,containers (cpFill p stacksize n s)=containers s := by
    intro n
    induction n with
    | zero => exact fun _ => rfl
    | succ n ih => exact fun s => (ih _).trans rfl
  unfold cpCreate
  split_ifs
  · rfl
  · exact hfill _ _

/-- After an abort only pools can be created and descriptors opened or closed:
every other call of the main program uses the cid table, which is gone. -/
theorem moves_of_aborted (hc : Control s) (ha : s.status=.aborted) (h : Moves s a t) :
    (∃ p totalsize stacksize,s.pools p=none ∧ t=cpCreate s p totalsize stacksize) ∨
    ∃ fds set pc,set⊆s.epollSet ∧ t={s with openFds := fds,epollSet := set,pc := pc} := by
  have hmain : ¬∀ r,s.pc≠.main r := fun h => by simpa [ha] using hc.running h
  have hrun : ∀ c,¬Running s c := by
    intro c hr
    simpa [ha] using hc.status_of_running hr
  have henroll : ∀ (s' : Sched) c urgent t,s'.status=.aborted → enroll s' c urgent≠.ok t := by
    intro s' c urgent t hs' h
    obtain ⟨u,hu,-⟩ := bind_eq_ok h
    simp [register,hs'] at hu
  cases h with
  | create hu h => exact absurd h (henroll _ _ _ _ ha)
  | poolCreate hu hp => exact .inl ⟨_,_,_,hp,rfl⟩
  | obtain hu h =>
    rcases cpObtain_cases h with rfl|⟨cp,c,rest,-,-,-,h⟩
    · exact .inr ⟨_,_,_,List.Subset.refl _,rfl⟩
    · exact absurd h (henroll _ _ _ _ ha)
  | setUrgent hu h => simp [dycoCoroutineSetUrgent,ha] at h
  | openFd => exact .inr ⟨_,_,_,List.Subset.refl _,rfl⟩
  | closeFd => exact .inr ⟨_,_,_,List.erase_subset,rfl⟩
  | run hu h =>
    simp only [dycoScheduleRun,ha] at h
    cases h
    exact .inr ⟨_,_,_,List.Subset.refl _,rfl⟩
  | loop hp => exact absurd (by simp [hp]) hmain
  | expire hp => exact absurd (by simp [hp]) hmain
  | dispatch hp => exact absurd (by simp [hp]) hmain
  | poll hp => exact absurd (by simp [hp]) hmain
  | eventsDone hp => exact absurd (by simp [hp]) hmain
  | event hp => exact absurd (by simp [hp]) hmain
  | sleep hr => exact absurd hr (hrun _)
  | wait hr => exact absurd hr (hrun _)
  | exit hr => exact absurd hr (hrun _)
  | abort hr => exact absurd hr (hrun _)
  | checkStack hr => exact absurd hr (hrun _)
  | stop hr => exact absurd hr (hrun _)
  | schedAbort hr => exact absurd hr (hrun _)
  | epollInit hr => exact absurd hr (hrun _)
  | epollDestroy hr => exact absurd hr (hrun _)
  | signalInit hr => exact absurd hr (hrun _)
  | signalDestroy hr => exact absurd hr (hrun _)

/-- The queues and the tree, which no release touches. -/
def queues (s : Sched) : List Co×List Co×List Co := (s.urgentReady,s.ready,s.sleeping)

theorem queues_coroAbort (h : coroAbort s c=.ok t) : queues t=queues s := by
  have hq := congrArg queues (coroAbort_endsOnly h).1
  exact hq

/-- `dyco_schedcall_abort` leaves the queues and the tree as they are. -/
theorem queues_schedcallAbort (h : dycoSchedcallAbort s c=.ok t) :
    queues t=queues s ∧ t.status=.aborted := by
  obtain ⟨u,hu,h⟩ := bind_eq_ok h
  have hst : u.status=.aborted := congrArg (fun p => p.2.1) (control_scheduleAbort hu)
  obtain ⟨v,hv,hu⟩ := bind_eq_ok hu
  have hq : queues v=queues s := by
    refine cidClear_invariant (fun w => queues w=queues s) ?_ ?_ hv
    · exact fun _ _ _ hw hf => (queues_coroAbort hf).trans hw
    · rfl
  cases hu
  cases h
  refine ⟨?_,(control_leaveCo _ c).1.trans hst⟩
  obtain ⟨pc,hpc⟩ := leaveCo_eq {v with cidCoMap := ∅,currThread := none,status := .aborted} c
  rw [hpc]
  exact hq

/-- `coro_abort` of a coroutine that `cid_co_map` leads to. -/
theorem coroAbort_entry {k : ℤ} (hs : Store s) (hk : s.cidCoMap.lookup k=some c)
    (h : coroAbort s c=.ok t) : Ended s t c ∧ t.cidCoMap=s.cidCoMap.erase k ∧
      ∀ d≠c,t.co d=s.co d := by
  obtain ⟨hl,rfl⟩ := hs.cids k c hk
  have hend := coroAbort_spec hs hl h
  refine ⟨hend,?_,(coroAbort_endsOnly h).2.1⟩
  rcases cidCoMap_coroAbort h with rfl|hm
  · rcases hend.life with hf|hf <;> simp [hl] at hf
  · exact hm

/-- What releases of entries of `cid_co_map` amount to: some of the coroutines that the
table leads to have ended, and all other records are the same. -/
structure Clears (s t : Sched) : Prop where
  store : Store t
  cids : ∀ k d,t.cidCoMap.lookup k=some d → s.cidCoMap.lookup k=some d
  ends : ∀ d,t.co d=s.co d ∨
    ((t.co d).life=.freed ∨ (t.co d).life=.idle) ∧ ∃ k,s.cidCoMap.lookup k=some d

theorem Clears.refl (hs : Store s) : Clears s s := ⟨hs,fun _ _ => id,fun _ => .inl rfl⟩

theorem Clears.trans {u : Sched} (h : Clears s t) (k : Clears t u) : Clears s u := by
  refine ⟨k.store,fun x d hd => h.cids x d (k.cids x d hd),fun d => ?_⟩
  rcases k.ends d with hsame|⟨hend,x,hx⟩
  · rw [hsame]
    exact h.ends d
  · exact .inr ⟨hend,x,h.cids x d hx⟩

/-- What has ended stays ended. -/
theorem Clears.ended (h : Clears s t) (hl : (s.co c).life=.freed ∨ (s.co c).life=.idle) :
    (t.co c).life=.freed ∨ (t.co c).life=.idle := by
  rcases h.ends c with hsame|⟨hend,-⟩
  · rwa [hsame]
  · exact hend

theorem clears_coroAbort {k : ℤ} (hs : Store s) (hk : s.cidCoMap.lookup k=some c)
    (h : coroAbort s c=.ok t) : Clears s t := by
  obtain ⟨hend,hmap,hother⟩ := coroAbort_entry hs hk h
  refine ⟨hend.store,fun x d hd => ?_,fun d => ?_⟩
  · rw [hmap,lookup_erase_eq] at hd
    split_ifs at hd
    exact hd
  · by_cases hd : d=c
    · subst hd
      exact .inr ⟨hend.life,k,hk⟩
    · exact .inl (hother d hd)

/-- A chain is cleared without a fault only if it is empty: the callback deletes each node
before the loop frees it. -/
theorem clearChain_eq_ok {nodes : List (Σ _ : ℤ,Co)} (hs : Store s)
    (hn : ∀ e∈nodes,s.cidCoMap.lookup e.1=some e.2) (h : clearChain nodes s=.ok t) :
    nodes=[] ∧ t=s := by
  cases nodes with
  | nil =>
    cases h
    exact ⟨rfl,rfl⟩
  | cons e rest =>
    obtain ⟨u,hu,h⟩ := bind_eq_ok h
    obtain ⟨-,hmap,-⟩ := coroAbort_entry hs (hn e List.mem_cons_self) hu
    rw [hmap,AList.lookup_erase,if_pos rfl] at h
    cases h

/-- A slot is cleared without a fault only if it has at most two entries, and then the first
one is released. -/
theorem clearSlot_cases {i : ℕ} (hs : Store s) (h : clearSlot s i=.ok t) :
    chain cidSlot s.cidCoMap i=[] ∧ t=s ∨
    ∃ e rest,chain cidSlot s.cidCoMap i=e::rest ∧ rest.tail=[] ∧ coroAbort s e.2=.ok t := by
  unfold clearSlot at h
  split at h
  next hnil =>
    cases h
    exact .inl ⟨hnil,rfl⟩
  next e rest hchain =>
    obtain ⟨u,hu,h⟩ := bind_eq_ok h
    have hmem : e∈chain cidSlot s.cidCoMap i := by simp [hchain]
    obtain ⟨hend,hmap,-⟩ := coroAbort_entry hs (mem_chain.mp hmem).1 hu
    have hrest : chain cidSlot u.cidCoMap i=rest := by rw [hmap,chain_erase_head hchain]
    rw [hrest] at h
    have hfound : ∀ d∈rest.tail,u.cidCoMap.lookup d.1=some d.2 := by
      intro d hd
      have hd' : d∈chain cidSlot u.cidCoMap i := hrest ▸ List.mem_of_mem_tail hd
      exact (mem_chain.mp hd').1
    obtain ⟨htail,rfl⟩ := clearChain_eq_ok hend.store hfound h
    exact .inr ⟨e,rest,hchain,htail,hu⟩

/-- The clearing of one slot leaves the others alone and ends a coroutine that is alone in it. -/
theorem clearSlot_spec {i : ℕ} (hs : Store s) (h : clearSlot s i=.ok t) :
    Clears s t ∧ (∀ j≠i,chain cidSlot t.cidCoMap j=chain cidSlot s.cidCoMap j) ∧
    ∀ e,chain cidSlot s.cidCoMap i=[e] → (t.co e.2).life=.freed ∨ (t.co e.2).life=.idle := by
  rcases clearSlot_cases hs h with ⟨hnil,rfl⟩|⟨e,rest,hchain,-,hab⟩
  · exact ⟨.refl hs,fun _ _ => rfl,fun e he => by simp [hnil] at he⟩
  have hmem : e∈chain cidSlot s.cidCoMap i := by simp [hchain]
  obtain ⟨hk,hslot⟩ := mem_chain.mp hmem
  obtain ⟨hend,hmap,-⟩ := coroAbort_entry hs hk hab
  refine ⟨clears_coroAbort hs hk hab,fun j hj => ?_,fun d hd => ?_⟩
  · rw [hmap,chain_erase_of_ne (fun heq => hj (heq.symm.trans hslot))]
  · obtain ⟨rfl,-⟩ := List.cons.inj (hchain.symm.trans hd)
    exact hend.life

/-- The clearing of several slots, by induction on those that are left: a slot is not touched
until its turn comes. -/
theorem foldlM_clearSlot {slots : List ℕ} (hs : Store s) (h : slots.foldlM clearSlot s=.ok t) :
    Clears s t ∧ ∀ i∈slots,∀ e,chain cidSlot s.cidCoMap i=[e] →
      (t.co e.2).life=.freed ∨ (t.co e.2).life=.idle := by
  induction slots generalizing s with
  | nil =>
    cases h
    exact ⟨.refl hs,fun i hi => absurd hi List.not_mem_nil⟩
  | cons j slots ih =>
    rw [List.foldlM_cons] at h
    obtain ⟨u,hu,h⟩ := bind_eq_ok h
    obtain ⟨hclear,hother,hself⟩ := clearSlot_spec hs hu
    obtain ⟨hrest,hends⟩ := ih hclear.store h
    refine ⟨hclear.trans hrest,fun i hi e he => ?_⟩
    by_cases hij : i=j
    · subst hij
      exact hrest.ended (hself e he)
    · exact hends i ((List.mem_cons.mp hi).resolve_left hij) e ((hother i hij).trans he)

/-- The slot of every entry is visited. -/
theorem mem_usedSlots {k : ℤ} (hk : s.cidCoMap.lookup k=some c) : cidSlot k∈usedSlots s := by
  have hmem : k∈s.cidCoMap.keys := AList.lookup_isSome.mp (Option.isSome_of_mem hk)
  unfold usedSlots
  rw [List.mem_insertionSort,List.mem_dedup]
  exact List.mem_map_of_mem hmem

/-- The abort of a scheduler ends coroutines that `cid_co_map` leads to, among them those that
are alone in their slot. -/
structure Abandoned (s t : Sched) : Prop where
  store : Store t
  cids : t.cidCoMap=∅
  ended : ∀ k c,s.cidCoMap.lookup k=some c → alone cidSlot s.cidCoMap k=true →
    (t.co c).life≠.live
  others : ∀ c,(∀ k,s.cidCoMap.lookup k≠some c) → (t.co c).life=(s.co c).life
  fdCoMap : (∀ fd,s.fdCoMap.lookup fd=none) → ∀ fd,t.fdCoMap.lookup fd=none

theorem abandoned_of_abort (hs : Store s) (h : dycoSchedcallAbort s c=.ok t) : Abandoned s t := by
  obtain ⟨u,hu,h⟩ := bind_eq_ok h
  obtain ⟨v,hv,hu⟩ := bind_eq_ok hu
  have hfd : (∀ fd,s.fdCoMap.lookup fd=none) → ∀ fd,v.fdCoMap.lookup fd=none := by
    intro hnone
    refine cidClear_invariant (fun w => ∀ fd,w.fdCoMap.lookup fd=none) ?_ ?_ hv
    · intro w d w' hw hf fd
      rcases (coroAbort_endsOnly hf).2.2 with hm|⟨k,hm⟩
      · rw [hm]
        exact hw fd
      · rw [hm,lookup_erase_eq,hw fd,ite_self]
    · exact hnone
  have hs' : Store (s.setCo c fun r => {r with statusRunning := false,statusSchedcall := true}) :=
    (Frame.setCo s c rfl rfl).store hs
  obtain ⟨hclear,hends⟩ := foldlM_clearSlot hs' hv
  have hst := hclear.store
  cases hu
  cases h
  obtain ⟨pc,hpc⟩ := leaveCo_eq {v with cidCoMap := ∅,currThread := none,status := .aborted} c
  rw [hpc]
  refine ⟨⟨hst.unborn,hst.freelist,hst.pooled,fun k d hd => ?_⟩,rfl,?_,?_,hfd⟩
  · rw [Sched.goto_cidCoMap,AList.lookup_empty] at hd
    cases hd
  · intro k d hk halone
    have hmem : (⟨k,d⟩ : Σ _ : ℤ,Co)∈chain cidSlot s.cidCoMap (cidSlot k) := mem_chain.mpr ⟨hk,rfl⟩
    have hone : chain cidSlot s.cidCoMap (cidSlot k)=[⟨k,d⟩] := by
      have hlen := of_decide_eq_true halone
      obtain ⟨e,he⟩ := List.length_eq_one_iff.mp
        (Nat.le_antisymm hlen (List.length_pos_of_mem hmem))
      rw [he,List.mem_singleton] at hmem
      rw [he,hmem]
    have hend := hends _ (mem_usedSlots hk) ⟨k,d⟩ hone
    rw [Sched.goto_co]
    rcases hend with hl|hl <;> simp [hl]
  · intro d hd
    rcases hclear.ends d with hsame|⟨-,k,hk⟩
    · rw [Sched.goto_co]
      refine (congrArg Coroutine.life hsame).trans ?_
      by_cases hdc : d=c <;> simp [hdc]
    · exact absurd hk (hd k)

/-- No wait is woken by both of its sources, and no coroutine is killed between
registering and suspending itself, under a cid that is not its own, or as the
first of several in its slot of `cid_co_map`. -/
def Disciplined (s : Sched) (a : Act) : Prop := firesOnce s a=true ∧ killsCleanly s a=true

instance (s : Sched) (a : Act) : Decidable (Disciplined s a) :=
  inferInstanceAs (Decidable (_∧_))

/-- Sound with `before` until the scheduler is aborted, and `after` from then
on. -/
def UntilAbort (before after : Sched → Prop) (s : Sched) : Prop :=
  Sound s ∧ before s ∨ s.status=.aborted ∧ Control s ∧ after s

theorem status_of_aborted (hc : Control s) (ha : s.status=.aborted) (h : Moves s a t) :
    t.status=.aborted := by
  rcases moves_of_aborted hc ha h with ⟨p,n,k,-,rfl⟩|⟨fds,set,pc,-,rfl⟩
  · exact (status_eq (control_cpCreate p n k)).trans ha
  · exact ha

/-- The rule for disciplined runs: a property of sound states kept by every
step until an abort, and a property that the abort establishes and that is kept
afterwards. -/
theorem untilAbort_of_reachable {cond : Sched → Act → Prop} {before after : Sched → Prop}
    (hcond : ∀ s a,cond s a → Disciplined s a)
    (hinit : ∀ schedId stackSize pageSize now,
      before (dycoScheduleCreate schedId stackSize pageSize now))
    (hstep : ∀ s a t,Sound s → before s → cond s a → a≠.schedAbort → step s a=some (.ok t) →
      before t)
    (habort : ∀ s c t,Sound s → before s → cond s .schedAbort → dycoSchedcallAbort s c=.ok t →
      after t)
    (hafter : ∀ s a t,s.status=.aborted → Control s → after s → cond s a → Moves s a t → after t)
    (h : Reachable cond s) : UntilAbort before after s := by
  obtain ⟨schedId,stackSize,pageSize,now,h⟩ := h
  refine h.invariant (UntilAbort before after) (.inl ⟨sound_create _ _ _ _,hinit _ _ _ _⟩) ?_
  intro u a v hu hc hv
  have hm := moves_of_step hv
  rcases hu with ⟨hs,hb⟩|⟨hst,hct,haf⟩
  · by_cases hsa : a=.schedAbort
    · subst hsa
      cases hm with
      | schedAbort hr h =>
        exact .inr ⟨(queues_schedcallAbort h).2,hs.control.moves (.schedAbort hr h),
          habort _ _ _ hs hb hc h⟩
    · exact .inl ⟨hs.moves (hcond _ _ hc).1 (hcond _ _ hc).2 hsa hm,hstep _ _ _ hs hb hc hsa hv⟩
  · exact .inr ⟨status_of_aborted hct hst hm,hct.moves hm,hafter _ _ _ hst hct haf hc hm⟩

end DycoCoroutine.ScheduleAbort
