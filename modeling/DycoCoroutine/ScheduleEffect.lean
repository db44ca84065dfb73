import DycoCoroutine.CoroutineStanding
import DycoCoroutine.ScheduleControl

/-!
# Effects of the scheduler operations on standings

Each operation gets one lemma saying what it does to the standing of every
coroutine, and one saying what it leaves alone. The bookkeeping that standings
do not show is kept apart: the allocator, the freelists and `cid_co_map` in
`Store`, the key order of the sleeping tree in `Frame`.
-/

namespace DycoCoroutine.ScheduleEffect

open ScheduleState ScheduleOps ScheduleRun ScheduleControl CoroutineStanding KeyedSet RunInvariant

/-- The fields of a record that only creation, pools and release change. -/
def identity (r : Coroutine) : Life×Option ℕ×ℤ×Bool := (r.life,r.cpool,r.cid,r.flagsIncoropool)

/-- The allocator, the freelists and `cid_co_map` agree with the records. -/
structure Store (s : Sched) : Prop where
  /-- Objects are handed out in order. -/
  unborn : ∀ c,s.nextCo ≤ c → (s.co c).life=.unborn
  /-- A freelist holds the idle coroutines of its own pool, each once. -/
  freelist : ∀ p cp,s.pools p=some cp → cp.freelist.Nodup ∧
    ∀ c,c∈cp.freelist ↔ (s.co c).life=.idle ∧ (s.co c).cpool=some p
  /-- A pooled coroutine knows its pool. -/
  pooled : ∀ c,(s.co c).life=.idle ∨ (s.co c).flagsIncoropool=true →
    ∃ p cp,(s.co c).cpool=some p ∧ s.pools p=some cp
  /-- `cid_co_map` holds live coroutines under their own cid. -/
  cids : ∀ k c,s.cidCoMap.lookup k=some c → (s.co c).life=.live ∧ (s.co c).cid=k

/-- The books of a scheduler: which coroutines exist, under which cid and in which pool. -/
structure Books where
  schedId : ℕ
  cidGen : ℕ
  coroCount : UInt32
  cidCoMap : CoMap
  nextCo : Co
  pools : ℕ → Option CoroPool
  co : Co → Life×Option ℕ×ℤ×Bool

/-- What the scheduler has in its books. -/
def books (s : Sched) : Books :=
  ⟨s.schedId,s.cidGen,s.coroCount,s.cidCoMap,s.nextCo,s.pools,fun c => identity (s.co c)⟩

/-- An update of one record shows in the books by its identity. -/
theorem books_setCo (s : Sched) (c : Co) (f : Coroutine → Coroutine) : books (s.setCo c f)=
    {books s with co := Function.update (books s).co c (identity (f (s.co c)))} := by
  refine congrArg (fun co => {books s with co := co}) (funext fun d => ?_)
  by_cases hd : d=c
  · subst hd
    simp
  · simp [books,hd]

/-- What an operation inside a phase leaves alone. -/
structure Frame (s t : Sched) : Prop where
  books : books t=books s
  ordered : Ordered s.key s.sleeping → Ordered t.key t.sleeping

variable {s t u : Sched} {c d : Co} {fd : ℤ} {now : ℕ}

/-- Nothing happens. -/
theorem Frame.refl (s : Sched) : Frame s s := ⟨rfl,id⟩

/-- Two operations in a row. -/
theorem Frame.trans (h : Frame s t) (k : Frame t u) : Frame s u where
  books := k.books.trans h.books
  ordered := k.ordered ∘ h.ordered

/-- The records keep their identity. -/
theorem Frame.identity (h : Frame s t) (c : Co) : identity (t.co c)=identity (s.co c) :=
  congrArg (fun b : Books => b.co c) h.books

/-- Allocator, freelists and `cid_co_map` agree or not by what is in the books. -/
theorem Store.of_books (h : books t=books s) (hs : Store s) : Store t := by
  have hid : ∀ c,identity (t.co c)=identity (s.co c) :=
    fun c => congrArg (fun b : Books => b.co c) h
  have hl : ∀ c,(t.co c).life=(s.co c).life := fun c => congrArg Prod.fst (hid c)
  have hp : ∀ c,(t.co c).cpool=(s.co c).cpool := fun c => congrArg (fun p => p.2.1) (hid c)
  have hi : ∀ c,(t.co c).cid=(s.co c).cid := fun c => congrArg (fun p => p.2.2.1) (hid c)
  have hb : ∀ c,(t.co c).flagsIncoropool=(s.co c).flagsIncoropool :=
    fun c => congrArg (fun p => p.2.2.2) (hid c)
  have hnext : t.nextCo=s.nextCo := congrArg Books.nextCo h
  have hpools : t.pools=s.pools := congrArg Books.pools h
  have hmap : t.cidCoMap=s.cidCoMap := congrArg Books.cidCoMap h
  obtain ⟨h₁,h₂,h₃,h₄⟩ := hs
  constructor <;> simpa only [hnext,hpools,hmap,hl,hp,hi,hb]

/-- They stay in agreement under a frame. -/
theorem Frame.store (h : Frame s t) (hs : Store s) : Store t := hs.of_books h.books

/-- A record update that keeps the identity and the key. -/
theorem Frame.setCo (s : Sched) (c : Co) {f : Coroutine → Coroutine}
    (hi : ScheduleEffect.identity (f (s.co c))=ScheduleEffect.identity (s.co c))
    (hk : (f (s.co c)).sleepUsecs=(s.co c).sleepUsecs) : Frame s (s.setCo c f) := by
  refine ⟨?_,fun h => h.congr fun d _ => ?_⟩
  · rw [books_setCo,hi]
    exact congrArg (fun co => {ScheduleEffect.books s with co := co}) (Function.update_eq_self ..)
  · by_cases hd : d=c
    · subst hd
      simpa [Sched.key] using hk
    · simp [Sched.key,hd]

/-- The current thread is outside the frame. -/
theorem Frame.setThread (s : Sched) (c : Option Co) : Frame s (s.setThread c) :=
  ⟨rfl,id⟩

/-- The program counter is outside the frame. -/
theorem Frame.goto (s : Sched) (pc : Pc) : Frame s (s.goto pc) :=
  ⟨rfl,id⟩

/-- The clock is outside the frame. -/
theorem Frame.setClock (s : Sched) (now : ℕ) : Frame s (s.setClock now) :=
  ⟨rfl,id⟩

/-- Descriptors that open are outside the frame. -/
theorem frame_openFd (s : Sched) (fd : ℤ) : Frame s (openFd s fd) :=
  ⟨rfl,id⟩

/-- Descriptors that close are outside the frame. -/
theorem frame_closeFd (s : Sched) (fd : ℤ) : Frame s (closeFd s fd) :=
  ⟨rfl,id⟩

/-- A descriptor that closes changes no standing. -/
@[simp] theorem standing_closeFd (s : Sched) (fd : ℤ) (d : Co) :
    standing (closeFd s fd) d=standing s d := rfl

/-- The program counter changes no standing. -/
@[simp] theorem standing_goto (s : Sched) (pc : Pc) (d : Co) :
    standing (s.goto pc) d=standing s d := rfl

/-- The clock changes no standing. -/
@[simp] theorem standing_setClock (s : Sched) (now : ℕ) (d : Co) :
    standing (s.setClock now) d=standing s d := rfl

/-- An update of one record changes that coroutine's standing only. -/
theorem standing_setCo (s : Sched) (c d : Co) (f : Coroutine → Coroutine) :
    standing (s.setCo c f) d=if d=c then
      {standing s c with
        life := (f (s.co c)).life
        cont := (f (s.co c)).cont
        readyBit := (f (s.co c)).statusReady
        sleepingBit := (f (s.co c)).statusSleeping
        waitingBit := (f (s.co c)).flagsWaiting
        doomed := (f (s.co c)).statusExited || (f (s.co c)).statusKilled}
      else standing s d := by
  split_ifs with h
  · subst h
    ext <;> simp [standing]
  · ext <;> simp [standing,h]

/-- Queueing a coroutine sets its READY bit and adds it to a queue. -/
theorem standing_insertReady (s : Sched) (c d : Co) :
    standing (insertReady s c) d=if d=c then
      {standing s c with readyBit := true,queued := (standing s c).queued+1}
      else standing s d := by
  unfold insertReady
  split_ifs with hu hd hd
  · subst hd
    ext <;> simp [standing]
    omega
  · ext <;> simp [standing,hd,Ne.symm hd]
  · subst hd
    ext <;> simp [standing]
    omega
  · ext <;> simp [standing,hd,Ne.symm hd]

/-- Queueing a coroutine stays within the frame. -/
theorem frame_insertReady (s : Sched) (c : Co) : Frame s (insertReady s c) := by
  have hf : Frame s (s.setCo c fun r => {r with statusReady := true}) :=
    .setCo s c rfl rfl
  unfold insertReady
  split_ifs
  · exact ⟨hf.books,hf.ordered⟩
  · exact ⟨hf.books,hf.ordered⟩

/-- The expired sleeper is the first, and its time has come. -/
theorem getExpired_head (h : scheduleGetExpired s now=some (c,t)) :
    ∃ rest,s.sleeping=c::rest ∧ s.key c≤now-s.birth := by
  obtain ⟨rest,hl,hk,-⟩ := getExpired_cases h
  exact ⟨rest,hl,hk⟩

/-- Phase A takes the first sleeper, and only its timer. -/
theorem getExpired_spec (h : scheduleGetExpired s now=some (c,t))
    (ho : Ordered s.key s.sleeping) :
    c∈s.sleeping ∧ Frame s t ∧ ∀ d,standing t d=if d=c then
      {standing s c with asleep := false,sleepingBit := false} else standing s d := by
  obtain ⟨rest,hl,-,rfl⟩ := getExpired_cases h
  refine ⟨by simp [hl],?_,?_⟩
  · have hf : Frame s (s.setCo c fun r => {r with statusSleeping := false,flagsExpired := true}) :=
      .setCo s c rfl rfl
    exact ⟨hf.books,fun ho => (hf.ordered ho).erase c⟩
  · intro d
    have hn := ho.nodup
    split_ifs with hd
    · subst hd
      ext <;> simp [standing,hn.mem_erase_iff]
    · ext <;> simp [standing,hd,hn.mem_erase_iff]

/-- The key search of `schedule_sched_sleep` evicts at most one sleeper. -/
theorem dropKey_spec (ho : Ordered s.key s.sleeping) (c : Co) :
    Frame s (dropKey s c) ∧ (dropKey s c).sleeping⊆s.sleeping ∧
    ∀ d,standing (dropKey s c) d={standing s d with
      asleep := (standing s d).asleep && find s.key (s.key c) s.sleeping≠some d} := by
  unfold dropKey
  split
  next e he =>
    refine ⟨⟨rfl,fun h => h.erase e⟩,
      List.erase_subset,fun d => ?_⟩
    by_cases hd : d=e
    · subst hd
      ext <;> simp [standing,he,ho.nodup.mem_erase_iff]
    · ext <;> simp [standing,he,hd,Ne.symm hd,ho.nodup.mem_erase_iff]
  next he =>
    refine ⟨.refl s,fun _ h => h,fun d => ?_⟩
    ext <;> simp [standing,he]

/-- The insertion loop puts the coroutine into the tree under an unused key. -/
theorem setTimer_spec (hc : c∉s.sleeping) (deadline : ℕ) :
    Frame s (setTimer s c deadline) ∧ ∀ d,standing (setTimer s c deadline) d=if d=c then
      {standing s c with asleep := true,sleepingBit := true} else standing s d := by
  have hkey : ∀ y∈s.sleeping,((s.setCo c fun r => {r with
      sleepUsecs := firstUnused s.key s.sleeping (s.sleeping.length+1) deadline
      statusSleeping := true
      flagsExpired := false}).co y).sleepUsecs=s.key y := by
    intro y hy
    have hne : y≠c := fun h => hc (h ▸ hy)
    simp [hne,Sched.key]
  refine ⟨⟨congrArg (fun co => {books s with co := co}) (funext fun d => ?_),?_⟩,?_⟩
  · by_cases hd : d=c <;> simp [setTimer,identity,hd]
  · intro ho
    refine (ho.congr hkey).place fun y hy => ?_
    have hu : s.key y≠_ := firstUnused_unused s.sleeping deadline y hy
    rw [← hkey y hy] at hu
    simpa [Sched.key] using hu
  · intro d
    split_ifs with hd
    · subst hd
      ext <;> simp [setTimer,standing]
    · ext <;> simp [setTimer,standing,hd]

/-- `schedule_sched_sleep` of a coroutine outside the tree: it enters the tree
if the time is positive, and one other sleeper with its old key is evicted. -/
theorem schedSleep_spec (ho : Ordered s.key s.sleeping) (hc : c∉s.sleeping) (msecs : ℤ)
    (now : ℕ) :
    Frame s (scheduleSchedSleep s c msecs now) ∧
    ∀ d,standing (scheduleSchedSleep s c msecs now) d=if d=c then
        if msecs≤0 then standing s c else {standing s c with asleep := true,sleepingBit := true}
      else {standing s d with
        asleep := (standing s d).asleep && find s.key (s.key c) s.sleeping≠some d} := by
  obtain ⟨hf,hsub,hst⟩ := dropKey_spec ho c
  have hself : standing (dropKey s c) c=standing s c := by
    rw [hst]
    ext <;> simp [standing,hc]
  unfold scheduleSchedSleep
  split_ifs with hm
  · refine ⟨hf,fun d => ?_⟩
    split_ifs with hd
    · rw [hd,hself]
    · exact hst d
  · obtain ⟨hf',hst'⟩ := setTimer_spec (s := dropKey s c) (fun h => hc (hsub h))
      (now-s.birth+msecs.toNat*1000%2^32)
    refine ⟨hf.trans hf',fun d => ?_⟩
    rw [hst']
    split_ifs with hd
    · rw [hself]
    · exact hst d

/-- `schedule_cancel_sleep` takes its coroutine out of the sleepers and touches no
other standing. -/
theorem cancelSleep_spec (ho : Ordered s.key s.sleeping)
    (hb : c∈s.sleeping → (s.co c).statusSleeping=true) (h : scheduleCancelSleep s c=.ok t) :
    Frame s t ∧ ∀ d,standing t d=if d=c then
      {standing s c with asleep := false,sleepingBit := false} else standing s d := by
  unfold scheduleCancelSleep at h
  split_ifs at h with hs hc
  · cases h
    have hf : Frame s (s.setCo c fun r => {r with statusSleeping := false}) :=
      .setCo s c rfl rfl
    refine ⟨⟨hf.books,fun ho => (hf.ordered ho).erase c⟩,fun d => ?_⟩
    have hn := ho.nodup
    split_ifs with hd
    · subst hd
      ext <;> simp [standing,hn.mem_erase_iff]
    · ext <;> simp [standing,hd,hn.mem_erase_iff]
  · cases h
    have hc : c∉s.sleeping := fun hc => hs (hb hc)
    refine ⟨.refl s,fun d => ?_⟩
    split_ifs with hd
    · subst hd
      ext <;> simp [standing,hc,hs]
    · rfl

/-- A lookup after a deletion. -/
theorem lookup_erase_eq (m : CoMap) (k x : ℤ) :
    (m.erase k).lookup x=if x=k then none else m.lookup x := by
  split_ifs with h
  · rw [h,AList.lookup_erase]
  · exact AList.lookup_erase_ne h

/-- A lookup after an insertion. -/
theorem lookup_insert_eq (m : CoMap) (k x : ℤ) (c : Co) :
    (m.insert k c).lookup x=if x=k then some c else m.lookup x := by
  split_ifs with h
  · rw [h,AList.lookup_insert]
  · exact AList.lookup_insert_ne h

/-- `schedule_cancel_wait` of a waiting coroutine takes the descriptor away
from whatever coroutine it is mapped to. -/
theorem cancelWait_spec (h : scheduleCancelWait s c fd=.ok t) :
    Frame s t ∧ ∀ d,standing t d=if (s.co c).flagsWaiting then
      {standing s d with
        waitingBit := (standing s d).waitingBit && d≠c
        waits := Function.update (standing s d).waits fd false}
      else standing s d := by
  unfold scheduleCancelWait at h
  split_ifs at h with hw
  · unfold epollCtlDel at h
    split_ifs at h
    cases h
    have hf : Frame s (s.setCo c fun r => {r with flagsWaiting := false}) :=
      .setCo s c rfl rfl
    refine ⟨⟨hf.books,hf.ordered⟩,fun d => ?_⟩
    simp only [hw,if_true]
    by_cases hd : d=c
    · subst hd
      ext x <;> simp [standing,lookup_erase_eq,Function.update_apply]
    · ext x <;> simp [standing,hd,lookup_erase_eq,Function.update_apply]
  · cases h
    simp only [hw]
    exact ⟨.refl s,fun d => rfl⟩

/-- `schedule_sched_wait` enters its coroutine under the descriptor and sets its WAITING bit. -/
theorem schedWait_spec (h : scheduleSchedWait s c fd=.ok t) :
    Frame s t ∧ ∀ d,standing t d={standing s d with
      waitingBit := (standing s d).waitingBit || d=c
      waits := Function.update (standing s d).waits fd (decide (d=c))} := by
  obtain ⟨u,hu,h⟩ := bind_eq_ok h
  unfold epollCtlAdd at hu
  split_ifs at hu
  cases hu
  cases h
  have hf : Frame s (s.setCo c fun r => {r with flagsWaiting := true}) :=
    .setCo s c rfl rfl
  refine ⟨⟨hf.books,hf.ordered⟩,fun d => ?_⟩
  by_cases hd : d=c
  · subst hd
    ext x <;> simp [standing,lookup_insert_eq,Function.update_apply]
  · ext x <;> simp [standing,hd,lookup_insert_eq,Function.update_apply]
    split_ifs <;> simp_all [Ne.symm hd]

/-- `savestk` changes no standing. -/
theorem savestk_spec (s : Sched) (c : Co) (depth : ℕ) :
    Frame s (savestk s c depth) ∧ ∀ d,standing (savestk s c depth) d=standing s d := by
  unfold savestk
  split_ifs
  · exact ⟨.refl s,fun _ => rfl⟩
  · refine ⟨.setCo s c rfl rfl,fun d => ?_⟩
    rw [standing_setCo]
    split_ifs with hd
    · rw [hd]
      rfl
    · rfl

/-- `yield` without an overflow only moves the continuation. -/
theorem yield_spec {depth : ℕ×ℕ} (hk : checkstk s c depth.1=false) (k : Cont) :
    Frame s (yield s c depth k) ∧ ∀ d,standing (yield s c depth k) d=if d=c then
      {standing s c with cont := k} else standing s d := by
  have hmove : ∀ u : Sched,Frame s u → (∀ d,standing u d=standing s d) →
      Frame s (u.setCo c fun r => {r with statusRunning := false,cont := k}) ∧
      ∀ d,standing (u.setCo c fun r => {r with statusRunning := false,cont := k}) d=
        if d=c then {standing s c with cont := k} else standing s d := by
    intro u hf hst
    refine ⟨hf.trans (.setCo u c rfl rfl),fun d => ?_⟩
    rw [standing_setCo,← hst c,← hst d]
    rfl
  unfold yield
  rw [hk]
  simp only [Bool.false_eq_true,if_false]
  split_ifs
  · exact hmove s (.refl s) fun _ => rfl
  · obtain ⟨hf,hst⟩ := savestk_spec s c depth.2
    exact hmove _ hf hst

/-- The rest of a round changes no standing. -/
theorem leaveCo_spec (s : Sched) (c : Co) :
    Frame s (leaveCo s c) ∧ ∀ d,standing (leaveCo s c) d=standing s d := by
  obtain ⟨pc,h⟩ := leaveCo_eq s c
  rw [h]
  exact ⟨.goto s pc,fun _ => rfl⟩

/-- The current thread gives up control. -/
theorem standing_setThread_none (hr : s.currThread=some c) (d : Co) :
    standing (s.setThread none) d=if d=c then
      {standing s c with running := false} else standing s d := by
  split_ifs with hd
  · subst hd
    ext <;> simp [standing]
  · ext <;> simp [standing,hr,Ne.symm hd]

/-- A coroutine that neither exited nor was killed is left alone by the end of `resume`. -/
theorem resumeReturn_of_not_doomed (hd : (standing s c).doomed=false) :
    resumeReturn s c=.ok (s.setThread none) := by
  simp only [standing,Bool.or_eq_false_iff] at hd
  simp [resumeReturn,hd.1,hd.2]
  rfl

/-- A coroutine that suspends itself without an overflow. -/
theorem suspend_spec {depth : ℕ×ℕ} {k : Cont} (hk : checkstk s c depth.1=false)
    (hd : (standing s c).doomed=false) (hr : s.currThread=some c)
    (h : backToLoop (yield s c depth k) c=.ok t) :
    Frame s t ∧ ∀ d,standing t d=if d=c then
      {standing s c with cont := k,running := false} else standing s d := by
  obtain ⟨hf,hst⟩ := yield_spec hk k
  have hcur : (yield s c depth k).currThread=some c :=
    (currThread_eq (control_yield depth k)).trans hr
  have hself : (standing (yield s c depth k) c).doomed=false := by
    rw [hst]
    simpa using hd
  rw [backToLoop,resumeReturn_of_not_doomed hself] at h
  cases h
  obtain ⟨hf',hst'⟩ := leaveCo_spec ((yield s c depth k).setThread none) c
  refine ⟨(hf.trans (.setThread _ none)).trans hf',fun d => ?_⟩
  rw [hst',standing_setThread_none hcur]
  split_ifs with hd
  · rw [hst,if_pos rfl]
  · rw [hst,if_neg hd]

/-- The store after a change to one coroutine `c` and to the freelists it is
in: what is asked for concerns `c` alone. -/
theorem Store.change (hs : Store s) (ho : ∀ d≠c,identity (t.co d)=identity (s.co d))
    (hn : ∀ d,t.nextCo≤d → d≠c ∧ s.nextCo≤d)
    (hp : ∀ q cq,s.pools q=some cq → ∃ cq',t.pools q=some cq')
    (hf : ∀ q cq',t.pools q=some cq' → cq'.freelist.Nodup ∧
      (c∈cq'.freelist ↔ (t.co c).life=.idle ∧ (t.co c).cpool=some q) ∧
      ∃ cq,s.pools q=some cq ∧ ∀ d≠c,d∈cq'.freelist ↔ d∈cq.freelist)
    (hc : (t.co c).life=.idle ∨ (t.co c).flagsIncoropool=true →
      ∃ p cp,(t.co c).cpool=some p ∧ t.pools p=some cp)
    (hk : ∀ k d,t.cidCoMap.lookup k=some d → d≠c ∧ s.cidCoMap.lookup k=some d ∨
      d=c ∧ (t.co c).life=.live ∧ (t.co c).cid=k) : Store t := by
  have hlife : ∀ d≠c,(t.co d).life=(s.co d).life := fun d hd => congrArg Prod.fst (ho d hd)
  have hpool : ∀ d≠c,(t.co d).cpool=(s.co d).cpool :=
    fun d hd => congrArg (fun p => p.2.1) (ho d hd)
  have hin : ∀ d≠c,(t.co d).flagsIncoropool=(s.co d).flagsIncoropool :=
    fun d hd => congrArg (fun p => p.2.2.2) (ho d hd)
  refine ⟨?_,?_,?_,?_⟩
  · intro d hd
    obtain ⟨hdc,hd⟩ := hn d hd
    rw [hlife d hdc]
    exact hs.unborn d hd
  · intro q cq' hq
    obtain ⟨hnd,hself,cq,hcq,hother⟩ := hf q cq' hq
    refine ⟨hnd,fun d => ?_⟩
    by_cases hdc : d=c
    · rw [hdc]
      exact hself
    · rw [hother d hdc,hlife d hdc,hpool d hdc]
      exact (hs.freelist q cq hcq).2 d
  · intro d hd
    by_cases hdc : d=c
    · rw [hdc] at hd ⊢
      exact hc hd
    · rw [hlife d hdc,hin d hdc] at hd
      obtain ⟨p,cp,hpd,hcp⟩ := hs.pooled d hd
      obtain ⟨cp',hcp'⟩ := hp p cp hcp
      exact ⟨p,cp',(hpool d hdc).trans hpd,hcp'⟩
  · intro k d hd
    rcases hk k d hd with ⟨hdc,hd⟩|⟨rfl,hd⟩
    · obtain ⟨hl,hi⟩ := hs.cids k d hd
      exact ⟨(hlife d hdc).trans hl,(congrArg (fun p => p.2.2.1) (ho d hdc)).trans hi⟩
    · exact hd

/-- A coroutine that is not idle is in no freelist. -/
theorem Store.not_mem_freelist (hs : Store s) (hl : (s.co c).life≠.idle) {p : ℕ} {cp : CoroPool}
    (hp : s.pools p=some cp) : c∉cp.freelist :=
  fun hc => hl (((hs.freelist p cp hp).2 c).mp hc).1

/-- Freelists that do not change, for a coroutine that never was nor becomes
idle. -/
theorem Store.same_freelists (hs : Store s) (hl : (s.co c).life≠.idle)
    (hl' : (t.co c).life≠.idle) (hp : t.pools=s.pools) (q : ℕ) (cq' : CoroPool)
    (hq : t.pools q=some cq') : cq'.freelist.Nodup ∧
      (c∈cq'.freelist ↔ (t.co c).life=.idle ∧ (t.co c).cpool=some q) ∧
      ∃ cq,s.pools q=some cq ∧ ∀ d≠c,d∈cq'.freelist ↔ d∈cq.freelist := by
  rw [hp] at hq
  refine ⟨(hs.freelist q cq' hq).1,?_,cq',hq,fun _ _ => Iff.rfl⟩
  exact iff_of_false (hs.not_mem_freelist hl hq) fun h => hl' h.1

/-- Freelists after `c` has been pushed on that of its pool `p`. -/
theorem Store.pushed_freelist (hs : Store s) (hl : (s.co c).life≠.idle)
    (hl' : (t.co c).life=.idle) {p : ℕ} (hcp : (t.co c).cpool=some p) {f : CoroPool → CoroPool}
    (hf : ∀ cp,(f cp).freelist=c::cp.freelist)
    (hp : t.pools=Function.update s.pools p ((s.pools p).map f)) (q : ℕ) (cq' : CoroPool)
    (hq : t.pools q=some cq') : cq'.freelist.Nodup ∧
      (c∈cq'.freelist ↔ (t.co c).life=.idle ∧ (t.co c).cpool=some q) ∧
      ∃ cq,s.pools q=some cq ∧ ∀ d≠c,d∈cq'.freelist ↔ d∈cq.freelist := by
  rw [hp] at hq
  by_cases hqp : q=p
  · subst hqp
    rw [Function.update_self,Option.map_eq_some_iff] at hq
    obtain ⟨cq,hcq,rfl⟩ := hq
    rw [hf]
    refine ⟨List.nodup_cons.mpr ⟨hs.not_mem_freelist hl hcq,(hs.freelist q cq hcq).1⟩,?_,
      cq,hcq,fun d hd => ?_⟩
    · simp [hl',hcp]
    · simp [hd]
  · rw [Function.update_of_ne hqp] at hq
    refine ⟨(hs.freelist q cq' hq).1,?_,cq',hq,fun _ _ => Iff.rfl⟩
    refine iff_of_false (hs.not_mem_freelist hl hq) fun h => hqp ?_
    rw [hcp] at h
    exact (Option.some.inj h.2).symm

/-- Freelists after `c` has been popped from that of its pool `p`. -/
theorem Store.popped_freelist (hs : Store s) (hl' : (t.co c).life≠.idle) {p : ℕ} {cp : CoroPool}
    {rest : List Co} (hcp : s.pools p=some cp) (hfl : cp.freelist=c::rest)
    {f : CoroPool → CoroPool} (hf : ∀ cp,(f cp).freelist=rest)
    (hp : t.pools=Function.update s.pools p ((s.pools p).map f)) (q : ℕ) (cq' : CoroPool)
    (hq : t.pools q=some cq') : cq'.freelist.Nodup ∧
      (c∈cq'.freelist ↔ (t.co c).life=.idle ∧ (t.co c).cpool=some q) ∧
      ∃ cq,s.pools q=some cq ∧ ∀ d≠c,d∈cq'.freelist ↔ d∈cq.freelist := by
  obtain ⟨hnd,hm⟩ := hs.freelist p cp hcp
  rw [hfl] at hnd
  have hnc := (List.nodup_cons.mp hnd).1
  rw [hp] at hq
  by_cases hqp : q=p
  · subst hqp
    rw [Function.update_self,hcp] at hq
    cases hq
    rw [hf]
    refine ⟨(List.nodup_cons.mp hnd).2,iff_of_false hnc fun h => hl' h.1,cp,hcp,fun d hd => ?_⟩
    simp [hfl,hd]
  · rw [Function.update_of_ne hqp] at hq
    refine ⟨(hs.freelist q cq' hq).1,?_,cq',hq,fun _ _ => Iff.rfl⟩
    refine iff_of_false (fun hc => hqp ?_) fun h => hl' h.1
    have hown := ((hm c).mp (by simp [hfl])).2
    rw [(((hs.freelist q cq' hq).2 c).mp hc).2] at hown
    exact Option.some.inj hown

/-- An update of one pool makes no pool disappear. -/
theorem pools_setPool {q : ℕ} {cq : CoroPool} (p : ℕ) (f : CoroPool → CoroPool)
    (h : s.pools q=some cq) : ∃ cq',(s.setPool p f).pools q=some cq' := by
  by_cases hq : q=p
  · subst hq
    exact ⟨f cq,by simp [h]⟩
  · exact ⟨cq,by simp [hq,h]⟩

/-- The end of a coroutine: its life changes, and if it is not waiting then no
container that can wake a coroutine is touched. -/
structure Ended (s t : Sched) (c : Co) : Prop where
  store : Store t
  ordered : Ordered s.key s.sleeping → Ordered t.key t.sleeping
  life : (t.co c).life=.freed ∨ (t.co c).life=.idle
  standing : (s.co c).flagsWaiting=false → ∀ d,standing t d=if d=c then
    {standing s c with life := (t.co c).life} else standing s d

/-- `coro_abort` of a live coroutine. -/
theorem coroAbort_spec (hs : Store s) (hl : (s.co c).life=.live) (h : coroAbort s c=.ok t) :
    Ended s t c := by
  have hcid : ∀ k d,(s.cidCoMap.erase (s.co c).cid).lookup k=some d →
      d≠c ∧ s.cidCoMap.lookup k=some d := by
    intro k d hd
    rw [lookup_erase_eq] at hd
    split_ifs at hd with hk
    exact ⟨fun h => hk (h ▸ (hs.cids k d hd).2.symm),hd⟩
  have hne : (s.co c).life≠.idle := by rw [hl]; decide
  unfold coroAbort at h
  split_ifs at h with hin
  · obtain ⟨p,cp,hp,hcp⟩ := hs.pooled c (.inr hin)
    simp only [cpReturn,hp] at h
    obtain ⟨u,hu,h⟩ := bind_eq_ok h
    obtain ⟨map,fds,set,b,rfl,hb,-⟩ := releaseCoro_cases hu
    cases h
    refine ⟨hs.change (c := c) ?_ ?_ ?_ (hs.pushed_freelist hne ?_ ?_ (fun _ => rfl) rfl)
      ?_ fun k d hd => .inl (hcid k d hd),?_,.inr ?_,fun hw d => ?_⟩
    · exact fun d hd => by simp [hd]
    · exact fun d hd => ⟨fun h => by simpa [h,hl] using hs.unborn d hd,hd⟩
    · exact fun q cq => pools_setPool p _
    · simp
    · simpa using hp
    · exact fun _ => (pools_setPool p _ hcp).elim fun cp' hcp' => ⟨p,cp',by simpa using hp,hcp'⟩
    · exact fun ho => ho.congr fun d _ => by by_cases hd : d=c <;> simp [Sched.key,hd]
    · simp
    · obtain ⟨rfl,rfl⟩ := hb hw
      split_ifs with hd
      · subst hd
        ext <;> simp [standing,hw]
      · ext <;> simp [standing,hd]
  · obtain ⟨u,hu,h⟩ := bind_eq_ok h
    obtain ⟨map,fds,set,b,rfl,hb,-⟩ := releaseCoro_cases hu
    cases h
    refine ⟨hs.change (c := c) ?_ ?_ ?_ (hs.same_freelists hne ?_ rfl) ?_
      fun k d hd => .inl (hcid k d hd),?_,.inl ?_,fun hw d => ?_⟩
    · exact fun d hd => by simp [hd]
    · exact fun d hd => ⟨fun h => by simpa [h,hl] using hs.unborn d hd,hd⟩
    · exact fun q cq hq => ⟨cq,hq⟩
    · simp
    · exact fun h => by simp [hin] at h
    · exact fun ho => ho.congr fun d _ => by by_cases hd : d=c <;> simp [Sched.key,hd]
    · simp
    · obtain ⟨rfl,rfl⟩ := hb hw
      split_ifs with hd
      · subst hd
        ext <;> simp [standing,hw]
      · ext <;> simp [standing,hd]

/-- Deleting an entry keeps the agreement of the rest. -/
theorem Store.eraseCid (hs : Store s) (k : ℤ) :
    Store {s with cidCoMap := s.cidCoMap.erase k} := by
  refine ⟨hs.unborn,hs.freelist,hs.pooled,fun k' d hd => ?_⟩
  rw [lookup_erase_eq] at hd
  split_ifs at hd
  exact hs.cids k' d hd

/-- The deletion from `cid_co_map` that ends a killed coroutine, when it finds
the coroutine itself. -/
theorem cidDelete_spec (hs : Store s) (hl : (s.co c).life=.live)
    (hk : s.cidCoMap.lookup (s.co c).cid=some c)
    (h : cidDeleteWithAbort s (s.co c).cid=.ok t) : Ended s t c := by
  simp only [cidDeleteWithAbort,hk] at h
  split_ifs at h
  obtain ⟨u,hu,h⟩ := bind_eq_ok h
  obtain ⟨hst,ho,hli,hse⟩ := coroAbort_spec hs hl hu
  cases h
  exact ⟨hst.eraseCid _,ho,hli,hse⟩

/-- The coroutine `c` leaves the books, by `coro_abort` or with its entry of `cid_co_map`. -/
def Leaves (s t : Sched) (c : Co) : Prop :=
  ∃ v w,books v=books s ∧ books t=books w ∧ (coroAbort v c=.ok w ∨
    v.cidCoMap.lookup (v.co c).cid=some c ∧ cidDeleteWithAbort v (v.co c).cid=.ok w)

/-- A coroutine that exits or is killed, if it has cancelled its wait and is
found under its own cid. -/
theorem end_spec (hs : Store s) (ho : Ordered s.key s.sleeping) (hr : s.currThread=some c)
    (hl : (s.co c).life=.live) (hw : (s.co c).flagsWaiting=false)
    (hb : c∈s.sleeping → (s.co c).statusSleeping=true) (hd : (standing s c).doomed=true)
    (hk : (s.co c).statusKilled=true → s.cidCoMap.lookup (s.co c).cid=some c)
    (h : backToLoop s c=.ok t) :
    Store t ∧ Ordered t.key t.sleeping ∧ Leaves s t c ∧ ∃ life,(life=.freed ∨ life=.idle) ∧
      ∀ d,standing t d=if d=c then
        {standing s c with life := life,asleep := false,sleepingBit := false,running := false}
        else standing s d := by
  obtain ⟨w,hw',h⟩ := bind_eq_ok h
  cases h
  -- the cancelled timer changes nothing that the release reads
  have hcancel : ∀ v,scheduleCancelSleep (s.setThread none) c=.ok v → Store v ∧
      (v.co c).life=.live ∧ (v.co c).flagsWaiting=false ∧
      (s.cidCoMap.lookup (s.co c).cid=some c → v.cidCoMap.lookup (v.co c).cid=some c) := by
    intro v hv
    obtain ⟨hf,hcs⟩ := cancelSleep_spec (s := s.setThread none) ho hb hv
    have hst := hcs c
    rw [if_pos rfl] at hst
    refine ⟨hf.store ((Frame.setThread s none).store hs),?_,?_,fun hk => ?_⟩
    · exact (congrArg Standing.life hst).trans hl
    · exact (congrArg Standing.waitingBit hst).trans hw
    · have hid : (v.co c).cid=(s.co c).cid := congrArg (fun p => p.2.2.1) (hf.identity c)
      rw [show v.cidCoMap=s.cidCoMap from congrArg Books.cidCoMap hf.books,hid]
      exact hk
  have hend : ∃ v,scheduleCancelSleep (s.setThread none) c=.ok v ∧
      (v.co c).flagsWaiting=false ∧ Ended v w c ∧ (coroAbort v c=.ok w ∨
        v.cidCoMap.lookup (v.co c).cid=some c ∧ cidDeleteWithAbort v (v.co c).cid=.ok w) := by
    unfold resumeReturn at hw'
    dsimp only at hw'
    split_ifs at hw' with hkill hexit
    · obtain ⟨v,hv,hw'⟩ := bind_eq_ok hw'
      obtain ⟨hsv,hlv,hwv,hkv⟩ := hcancel v hv
      have hk' := hkv (hk hkill)
      exact ⟨v,hv,hwv,cidDelete_spec hsv hlv hk' hw',.inr ⟨hk',hw'⟩⟩
    · obtain ⟨v,hv,hw'⟩ := bind_eq_ok hw'
      obtain ⟨hsv,hlv,hwv,-⟩ := hcancel v hv
      exact ⟨v,hv,hwv,coroAbort_spec hsv hlv hw',.inl hw'⟩
    · simp_all [standing]
  obtain ⟨v,hv,hwv,⟨hst,hord,hlife,hse⟩,hleave⟩ := hend
  obtain ⟨hf,hcs⟩ := cancelSleep_spec (s := s.setThread none) ho hb hv
  obtain ⟨hf',hls⟩ := leaveCo_spec w c
  refine ⟨hf'.store hst,hf'.ordered (hord (hf.ordered ho)),⟨v,w,hf.books,hf'.books,hleave⟩,
    (w.co c).life,hlife,fun d => ?_⟩
  rw [hls,hse hwv]
  split_ifs with hd
  · rw [hcs,if_pos rfl,standing_setThread_none hr,if_pos rfl]
  · rw [hcs,if_neg hd,standing_setThread_none hr,if_neg hd]

/-- `cid_co_map` gets a live coroutine that it does not hold yet. -/
theorem register_spec (hs : Store s) (hl : (s.co c).life=.live)
    (hn : ∀ k,s.cidCoMap.lookup k≠some c) (h : register s c=.ok t) :
    Store t ∧ (Ordered s.key s.sleeping → Ordered t.key t.sleeping) ∧
    ∀ d,standing t d=standing s d := by
  have hne : (s.co c).life≠.idle := by rw [hl]; decide
  unfold register at h
  split_ifs at h
  cases h
  refine ⟨hs.change (c := c) ?_ ?_ ?_ (hs.same_freelists hne ?_ rfl) ?_ ?_,?_,?_⟩
  · exact fun d hd => by simp [hd]
  · exact fun d hd => ⟨fun h => by simpa [h,hl] using hs.unborn d hd,hd⟩
  · exact fun q cq hq => ⟨cq,hq⟩
  · simpa using hne
  · intro h
    have hp := hs.pooled c (by simpa using h)
    simpa using hp
  · intro k d hd
    replace hd : (SlottedMap.enter cidSlot _ c s.cidCoMap).lookup k=some d := hd
    rw [SlottedMap.lookup_enter] at hd
    split_ifs at hd with hk
    · cases hd
      exact .inr ⟨rfl,by simpa using hl,by simp [hk]⟩
    · exact .inl ⟨fun h => hn k (h ▸ hd),hd⟩
  · exact fun ho => ho.congr fun d _ => by by_cases hd : d=c <;> simp [Sched.key,hd]
  · intro d
    refine (standing_setCo _ c d _).trans ?_
    split_ifs with hd
    · rw [hd]
      rfl
    · rfl

/-- A new coroutine is queued, and only its own standing changes. -/
theorem queueNew_spec (s : Sched) (c : Co) (urgent : Bool) :
    Frame s (wakeScheduler (queueNew s c urgent)) ∧
    ∀ d,standing (wakeScheduler (queueNew s c urgent)) d=if d=c then
      {standing s c with queued := (standing s c).queued+1} else standing s d := by
  have hf : Frame s (s.setCo c fun r => {r with flagsUrgent := true}) := .setCo s c rfl rfl
  have hq : Frame s (queueNew s c urgent) ∧ ∀ d,standing (queueNew s c urgent) d=if d=c then
      {standing s c with queued := (standing s c).queued+1} else standing s d := by
    unfold queueNew
    split_ifs
    · refine ⟨⟨hf.books,hf.ordered⟩,fun d => ?_⟩
      split_ifs with hd
      · subst hd
        ext <;> simp [standing]
        omega
      · ext <;> simp [standing,hd,Ne.symm hd]
    · refine ⟨⟨rfl,id⟩,fun d => ?_⟩
      split_ifs with hd
      · subst hd
        ext <;> simp [standing]
        omega
      · ext <;> simp [standing,Ne.symm hd]
  unfold wakeScheduler
  split_ifs
  · exact ⟨hq.1.trans ⟨rfl,id⟩,hq.2⟩
  · exact hq

/-- The end that creation and `cp_obtain` share. -/
theorem enroll_spec {urgent : Bool} (hs : Store s) (hl : (s.co c).life=.live)
    (hn : ∀ k,s.cidCoMap.lookup k≠some c) (h : enroll s c urgent=.ok t) :
    Store t ∧ (Ordered s.key s.sleeping → Ordered t.key t.sleeping) ∧
    ∀ d,standing t d=if d=c then
      {standing s c with queued := (standing s c).queued+1} else standing s d := by
  obtain ⟨u,hu,h⟩ := bind_eq_ok h
  obtain ⟨hsu,hou,hstu⟩ := register_spec hs hl hn hu
  obtain ⟨hf,hst⟩ := queueNew_spec u c urgent
  cases h
  refine ⟨hf.store hsu,hf.ordered ∘ hou,fun d => ?_⟩
  rw [hst,hstu,hstu]

/-- A standing that has just been written by `newcoro` or `cp_obtain`. -/
def fresh (σ : Standing) (life : Life) : Standing :=
  {σ with
    life := life, cont := .entry, readyBit := true, sleepingBit := false
    waitingBit := false, doomed := false}

/-- Creation, when the allocator's next object is not in the tree. -/
theorem create_spec {urgent : Bool} (hs : Store s) (hc : s.nextCo∉s.sleeping)
    (h : dycoCoroutineCreate s urgent=.ok t) :
    Store t ∧ (Ordered s.key s.sleeping → Ordered t.key t.sleeping) ∧
    ∀ d,standing t d=if d=s.nextCo then
      {fresh (standing s s.nextCo) .live with queued := (standing s s.nextCo).queued+1}
      else standing s d := by
  have hu := hs.unborn s.nextCo le_rfl
  have hlookup : ∀ k,s.cidCoMap.lookup k≠some s.nextCo := by
    intro k hk
    have hl := (hs.cids k _ hk).1
    rw [hu] at hl
    cases hl
  have hnew : Store (newcoro s .live).2 := by
    refine hs.change (c := s.nextCo) ?_ ?_ ?_ (hs.same_freelists ?_ ?_ rfl) ?_ ?_
    · exact fun d hd => by simp [newcoro,hd]
    · exact fun d hd => ⟨Nat.ne_of_gt hd,Nat.le_of_succ_le hd⟩
    · exact fun q cq hq => ⟨cq,hq⟩
    · rw [hu]
      decide
    · simp [newcoro,newRecord]
    · exact fun h => by simp [newcoro,newRecord] at h
    · exact fun k d hd => .inl ⟨fun h => hlookup k (h ▸ hd),hd⟩
  obtain ⟨hst,ho,hse⟩ := enroll_spec hnew (by simp [newcoro,newRecord]) hlookup h
  refine ⟨hst,fun hos => ho (hos.congr fun d hd => ?_),fun d => ?_⟩
  · have hdc : d≠s.nextCo := fun h => hc (h ▸ hd)
    simp [newcoro,Sched.key,hdc]
  · rw [hse]
    split_ifs with hd
    · ext <;> simp [newcoro,newRecord,fresh,standing]
    · ext <;> simp [newcoro,standing,hd]

/-- `cp_obtain` returns without effect, or takes an idle coroutine. -/
theorem cpObtain_spec {p : ℕ} {urgent : Bool} (hs : Store s)
    (hc : ∀ c,(s.co c).life=.idle → c∉s.sleeping) (h : cpObtain s p urgent=.ok t) :
    t=s ∨ ∃ c,(s.co c).life=.idle ∧ Store t ∧
    (Ordered s.key s.sleeping → Ordered t.key t.sleeping) ∧
    ∀ d,standing t d=if d=c then
      {fresh (standing s c) .live with queued := (standing s c).queued+1} else standing s d := by
  rcases cpObtain_cases h with rfl|⟨cp,c,rest,hp,-,hl,h⟩
  · exact .inl rfl
  obtain ⟨hidle,hpool⟩ := ((hs.freelist p cp hp).2 c).mp (by simp [hl])
  have hlookup : ∀ k,s.cidCoMap.lookup k≠some c := by
    intro k hk
    have hl := (hs.cids k _ hk).1
    rw [hidle] at hl
    cases hl
  have hnew : Store ((s.setPool p fun cp =>
      {cp with freelist := rest,activenum := cp.activenum+1}).setCo c renewRecord) := by
    refine hs.change (c := c) ?_ ?_ ?_ (hs.popped_freelist ?_ hp hl (fun _ => rfl) rfl) ?_ ?_
    · exact fun d hd => by simp [hd]
    · exact fun d hd => ⟨fun h => by simpa [h,hidle] using hs.unborn d hd,hd⟩
    · exact fun q cq => pools_setPool p _
    · simp [renewRecord]
    · exact fun _ => (pools_setPool p _ hp).elim fun cp' hcp' =>
        ⟨p,cp',by simpa [renewRecord] using hpool,hcp'⟩
    · exact fun k d hd => .inl ⟨fun h => hlookup k (h ▸ hd),hd⟩
  obtain ⟨hst,ho,hse⟩ := enroll_spec hnew (by simp [renewRecord]) hlookup h
  refine .inr ⟨c,hidle,hst,fun hos => ho (hos.congr fun d hd => ?_),fun d => ?_⟩
  · have hdc : d≠c := fun h => hc c hidle (h ▸ hd)
    simp [Sched.key,hdc]
  · rw [hse]
    split_ifs with hd
    · ext <;> simp [renewRecord,fresh,standing]
    · ext <;> simp [standing,hd]

/-- The record of a new member of a pool: idle, in its pool, not in any container. -/
theorem pooledRecord_standing (pageSize p stacksize : ℕ) :
    (pooledRecord pageSize p stacksize).life=.idle ∧
    (pooledRecord pageSize p stacksize).cpool=some p ∧
    (pooledRecord pageSize p stacksize).cont=.entry ∧
    (pooledRecord pageSize p stacksize).statusReady=true ∧
    (pooledRecord pageSize p stacksize).statusSleeping=false ∧
    (pooledRecord pageSize p stacksize).flagsWaiting=false ∧
    (pooledRecord pageSize p stacksize).statusExited=false ∧
    (pooledRecord pageSize p stacksize).statusKilled=false := by
  unfold pooledRecord
  split_ifs <;> simp [newRecord]

/-- One round of `cp_create` adds an idle coroutine to the pool. -/
theorem cpAdd_spec {p : ℕ} {cp : CoroPool} (hs : Store s) (hp : s.pools p=some cp)
    (hc : s.nextCo∉s.sleeping) (stacksize : ℕ) :
    Store (cpAdd s p stacksize) ∧ (∃ cp',(cpAdd s p stacksize).pools p=some cp') ∧
    (Ordered s.key s.sleeping → Ordered (cpAdd s p stacksize).key (cpAdd s p stacksize).sleeping) ∧
    ∀ d,standing (cpAdd s p stacksize) d=if d=s.nextCo then
      fresh (standing s s.nextCo) .idle else standing s d := by
  obtain ⟨hl,hcp,hk,hr,hsl,hw,he,hki⟩ := pooledRecord_standing s.pageSize p stacksize
  have hu := hs.unborn s.nextCo le_rfl
  have hself : (cpAdd s p stacksize).co s.nextCo=pooledRecord s.pageSize p stacksize := by
    simp [cpAdd,newcoro]
  have hpools : ∀ {q cq},s.pools q=some cq → ∃ cq',(cpAdd s p stacksize).pools q=some cq' :=
    fun hq => pools_setPool p _ hq
  refine ⟨hs.change (c := s.nextCo) ?_ ?_ ?_ (hs.pushed_freelist ?_ ?_ ?_ (fun _ => rfl) rfl) ?_ ?_,
    hpools hp,fun ho => ho.congr fun d hd => ?_,fun d => ?_⟩
  · exact fun d hd => by simp [cpAdd,newcoro,hd]
  · exact fun d hd => ⟨Nat.ne_of_gt hd,Nat.le_of_succ_le hd⟩
  · exact fun q cq => hpools
  · rw [hu]
    decide
  · rw [hself]
    exact hl
  · rw [hself]
    exact hcp
  · exact fun _ => (hpools hp).elim fun cp' hcp' => ⟨p,cp',by rw [hself]; exact hcp,hcp'⟩
  · refine fun k d hd => .inl ⟨fun h => ?_,hd⟩
    have hl' := (hs.cids k d hd).1
    rw [h,hu] at hl'
    cases hl'
  · have hdc : d≠s.nextCo := fun h => hc (h ▸ hd)
    simp [cpAdd,newcoro,Sched.key,hdc]
  · split_ifs with hd
    · subst hd
      ext <;> simp [cpAdd,newcoro,standing,fresh,hl,hk,hr,hsl,hw,he,hki]
    · ext <;> simp [cpAdd,newcoro,standing,hd]

/-- The loop of `cp_create`, by induction on the rounds that are left: an object
allocated in one round is idle in all later ones. -/
theorem cpFill_spec {p stacksize : ℕ} (n : ℕ) {s : Sched} {cp : CoroPool} (hs : Store s)
    (hp : s.pools p=some cp) (hc : ∀ c,(standing s c).life=.unborn → (standing s c).asleep=false) :
    Store (cpFill p stacksize n s) ∧
    (Ordered s.key s.sleeping →
      Ordered (cpFill p stacksize n s).key (cpFill p stacksize n s).sleeping) ∧
    ∀ d,standing (cpFill p stacksize n s) d=standing s d ∨
      (standing s d).life=.unborn ∧
      standing (cpFill p stacksize n s) d=fresh (standing s d) .idle := by
  induction n generalizing s cp with
  | zero => exact ⟨hs,id,fun _ => .inl rfl⟩
  | succ n ih =>
    have hu : (standing s s.nextCo).life=.unborn := hs.unborn s.nextCo le_rfl
    obtain ⟨hs',⟨cp',hp'⟩,ho',hst'⟩ := cpAdd_spec hs hp
      (by simpa [standing] using hc s.nextCo hu) stacksize
    obtain ⟨hs'',ho'',hst''⟩ := ih hs' hp' fun c hl => by
      rw [hst'] at hl ⊢
      split_ifs at hl ⊢ with h
      · cases hl
      · exact hc c hl
    refine ⟨hs'',ho'' ∘ ho',fun d => ?_⟩
    have hd := hst'' d
    rw [hst'] at hd
    split_ifs at hd with h
    · subst h
      rcases hd with hd|⟨hl,-⟩
      · exact .inr ⟨hu,hd⟩
      · cases hl
    · exact hd

/-- `cp_create` allocates idle coroutines and leaves all others alone. -/
theorem cpCreate_spec {p stacksize : ℕ} {totalsize : ℤ} (hs : Store s) (hp : s.pools p=none)
    (hc : ∀ c,(standing s c).life=.unborn → (standing s c).asleep=false) :
    Store (cpCreate s p totalsize stacksize) ∧
    (Ordered s.key s.sleeping → Ordered (cpCreate s p totalsize stacksize).key
      (cpCreate s p totalsize stacksize).sleeping) ∧
    ∀ d,standing (cpCreate s p totalsize stacksize) d=standing s d ∨
      (standing s d).life=.unborn ∧
      standing (cpCreate s p totalsize stacksize) d=fresh (standing s d) .idle := by
  unfold cpCreate
  split_ifs
  · exact ⟨hs,id,fun _ => .inl rfl⟩
  -- the new pool is empty, and no coroutine names it yet
  have hs' : Store {s with pools := Function.update s.pools p (some ⟨totalsize,0,stacksize,[]⟩)} := by
    have hne : ∀ q cq,s.pools q=some cq → q≠p := by
      rintro q cq hq rfl
      rw [hp] at hq
      cases hq
    refine ⟨hs.unborn,fun q cq hq => ?_,fun c h => ?_,hs.cids⟩
    · dsimp only at hq
      by_cases hqp : q=p
      · subst hqp
        rw [Function.update_self] at hq
        cases hq
        refine ⟨List.nodup_nil,fun c => iff_of_false List.not_mem_nil fun h => ?_⟩
        obtain ⟨q',cq,hq',hcq⟩ := hs.pooled c (.inl h.1)
        rw [h.2] at hq'
        cases hq'
        exact hne q cq hcq rfl
      · rw [Function.update_of_ne hqp] at hq
        exact hs.freelist q cq hq
    · obtain ⟨q,cq,hq,hcq⟩ := hs.pooled c h
      exact ⟨q,cq,hq,by simpa [hne q cq hcq] using hcq⟩
  exact cpFill_spec totalsize.toNat hs' (Function.update_self _ _ _) hc

end DycoCoroutine.ScheduleEffect
