import DycoCoroutine.ScheduleRun

/-!
# The standing of one coroutine

An abstract view of the scheduler that forgets everything but one coroutine:
its life, the bits that say how it waits, how often it is queued, and which
other wake-up sources hold it. A scheduler step moves each coroutine by one
hop of the small automaton defined here, so a law about one coroutine needs
one case per hop.
-/

namespace DycoCoroutine.CoroutineStanding

open ScheduleState

/-- What one coroutine's record and the containers say about it. -/
@[ext] structure Standing where
  /-- Life of the object. -/
  life : Life
  /-- Where it continues. -/
  cont : Cont
  /-- The READY bit. -/
  readyBit : Bool
  /-- The SLEEPING bit. -/
  sleepingBit : Bool
  /-- The WAITING bit. -/
  waitingBit : Bool
  /-- The EXITED or the KILLED bit. -/
  doomed : Bool
  /-- Number of occurrences in the two ready queues together. -/
  queued : ℕ
  /-- Membership in the sleeping tree. -/
  asleep : Bool
  /-- The descriptors that `fd_co_map` maps to it. -/
  waits : ℤ → Bool
  /-- Whether it is the current thread. -/
  running : Bool

/-- The standing of `c` in a scheduler state. -/
def standing (s : Sched) (c : Co) : Standing where
  life := (s.co c).life
  cont := (s.co c).cont
  readyBit := (s.co c).statusReady
  sleepingBit := (s.co c).statusSleeping
  waitingBit := (s.co c).flagsWaiting
  doomed := (s.co c).statusExited || (s.co c).statusKilled
  queued := (s.urgentReady++s.ready).count c
  asleep := decide (c∈s.sleeping)
  waits := fun fd => decide (s.fdCoMap.lookup fd=some c)
  running := decide (s.currThread=some c)

/-- No wake-up source holds the coroutine. -/
structure Quiet (σ : Standing) : Prop where
  queued : σ.queued=0
  asleep : σ.asleep=false
  waits : ∀ fd,σ.waits fd=false

/-- The discipline that every coroutine keeps as long as no wake-up is doubled
and no coroutine is killed between registering itself and suspending. -/
structure Settled (σ : Standing) : Prop where
  /-- A coroutine is queued at most once. -/
  once : σ.queued≤1
  /-- A queued coroutine is live, flagged ready and suspended, and only a wait
  can have left its timer behind. -/
  queued : 0<σ.queued → σ.life=.live ∧ σ.readyBit=true ∧ σ.running=false ∧
    (σ.sleepingBit=true → ∃ fd timed,σ.cont=.wait fd timed)
  /-- A queued coroutine has lost one of the sources of its wait. -/
  woken : 0<σ.queued → ∀ fd timed,σ.cont=.wait fd timed → σ.waits fd=true →
    timed=true ∧ σ.asleep=false
  /-- A member of the tree is live, suspended and flagged sleeping, and if it
  is in a wait then in a timed one. -/
  asleep : σ.asleep=true → σ.life=.live ∧ σ.running=false ∧ σ.sleepingBit=true ∧
    ∀ fd timed,σ.cont=.wait fd timed → timed=true
  /-- A mapped coroutine is live, suspended in a wait on that descriptor, and
  flagged waiting. -/
  waits : ∀ fd,σ.waits fd=true →
    σ.life=.live ∧ σ.running=false ∧ σ.waitingBit=true ∧ ∃ timed,σ.cont=.wait fd timed
  /-- The WAITING bit is set only inside a wait. -/
  waiting : σ.waitingBit=true → ∃ fd timed,σ.cont=.wait fd timed
  /-- The current thread is live and has cancelled its timer and its wait. -/
  running : σ.running=true → σ.life=.live ∧ σ.sleepingBit=false ∧ σ.waitingBit=false
  /-- Exited and killed coroutines are not live. -/
  live : σ.life=.live → σ.doomed=false

/-- What is known of a step: whether it leaves the timers, the descriptor waits and the
long sleeps of coroutines in order, and which descriptors it may report. -/
structure Known where
  timers : Prop
  fds : Prop
  sleeps : Prop
  reports : ℤ → Prop

/-- One move of one coroutine. A hop that loses a timer, a wait or a sleep is possible only
where they are not left in order. -/
inductive Hop (ρ : Known) : Standing → Standing → Prop
  /-- The coroutine is not affected. -/
  | stay (σ : Standing) : Hop ρ σ σ
  /-- Creation: allocated and queued. -/
  | born (σ : Standing) (h : σ.life=.unborn) : Hop ρ σ
      {σ with
        life := .live, cont := .entry, readyBit := true, sleepingBit := false
        waitingBit := false, doomed := false, queued := σ.queued+1}
  /-- Allocation into a pool. -/
  | shelved (σ : Standing) (h : σ.life=.unborn) : Hop ρ σ
      {σ with
        life := .idle, cont := .entry, readyBit := true, sleepingBit := false
        waitingBit := false, doomed := false}
  /-- Taken from its pool and queued. -/
  | obtained (σ : Standing) (h : σ.life=.idle) : Hop ρ σ
      {σ with
        life := .live, cont := .entry, readyBit := true, sleepingBit := false
        waitingBit := false, doomed := false, queued := σ.queued+1}
  /-- Its timer has expired, before the descriptor of its wait was ready. -/
  | expired (σ : Standing) (h : σ.asleep=true)
      (hp : ∀ fd timed,σ.cont=.wait fd timed → σ.waits fd=true) : Hop ρ σ
        {σ with asleep := false, sleepingBit := false, readyBit := true, queued := σ.queued+1}
  /-- Its descriptor is ready, before the timer of its wait has expired. -/
  | signalled (σ : Standing) (fd : ℤ) (h : σ.waits fd=true)
      (hp : σ.cont=.wait fd true → σ.asleep=true) (hr : ρ.reports fd) : Hop ρ σ
        {σ with
          readyBit := true, queued := σ.queued+1, waitingBit := false
          waits := Function.update σ.waits fd false}
  /-- Resumed outside a wait. -/
  | entered (σ : Standing) (h : 0<σ.queued) (hk : ∀ fd timed,σ.cont≠.wait fd timed) :
      Hop ρ σ
        {σ with queued := σ.queued-1, readyBit := false, running := true}
  /-- Resumed in a wait, which cancels its timer and its registration. -/
  | returned (σ : Standing) (fd : ℤ) (timed : Bool) (h : 0<σ.queued)
      (hk : σ.cont=.wait fd timed) :
      Hop ρ σ
        {σ with
          queued := σ.queued-1, readyBit := false, running := true, asleep := false
          sleepingBit := false, waitingBit := false, waits := Function.update σ.waits fd false}
  /-- Suspended at the tail of a ready queue. -/
  | requeued (σ : Standing) (k : Cont) (h : σ.running=true) :
      Hop ρ σ
        {σ with queued := σ.queued+1, readyBit := true, cont := k, running := false}
  /-- Suspended with a timer. -/
  | slept (σ : Standing) (h : σ.running=true) : Hop ρ σ
      {σ with asleep := true, sleepingBit := true, cont := .sleep, running := false}
  /-- Suspended by a sleep that set no timer. -/
  | overslept (σ : Standing) (h : σ.running=true) (hs : ¬ρ.sleeps) : Hop ρ σ
      {σ with cont := .sleep, running := false}
  /-- Suspended on a descriptor, with or without a timer. -/
  | blocked (σ : Standing) (fd : ℤ) (timed : Bool) (h : σ.running=true) :
      Hop ρ σ
        {σ with
          waitingBit := true, waits := Function.update σ.waits fd true, cont := .wait fd timed
          asleep := timed, sleepingBit := timed, running := false}
  /-- Released or returned to its pool. -/
  | released (σ : Standing) (life : Life) (doomed : Bool) (k : Cont)
      (h : σ.life=.live) (hq : Quiet σ) (hw : σ.waitingBit=false)
      (hl : life=.freed ∨ life=.idle) : Hop ρ σ
      {σ with
        life := life, doomed := doomed, sleepingBit := false, cont := k, running := false}
  /-- Its timer or its registration is lost to another coroutine's call. -/
  | robbed (σ : Standing) (asleep : Bool) (waits : ℤ → Bool)
      (ha : asleep=true → σ.asleep=true) (hw : ∀ fd,waits fd=true → σ.waits fd=true)
      (ht : ρ.timers → asleep=σ.asleep) (hf : ρ.fds → waits=σ.waits) :
      Hop ρ σ {σ with asleep := asleep, waits := waits}

variable {ρ : Known} {σ τ : Standing}

/-- The current thread is in no container. -/
theorem Settled.quiet_of_running (h : Settled σ) (hr : σ.running=true) : Quiet σ := by
  refine ⟨?_,?_,?_⟩
  · by_contra hq
    have hq' := (h.queued (Nat.pos_of_ne_zero hq)).2.2.1
    rw [hr] at hq'
    cases hq'
  · cases ha : σ.asleep with
    | false => rfl
    | true =>
      have hr' := (h.asleep ha).2.1
      rw [hr] at hr'
      cases hr'
  · intro fd
    cases hw : σ.waits fd with
    | false => rfl
    | true =>
      have hr' := (h.waits fd hw).2.1
      rw [hr] at hr'
      cases hr'

/-- A coroutine that is not live is in no container and not running. -/
theorem Settled.quiet_of_not_live (h : Settled σ) (hl : σ.life≠.live) :
    Quiet σ ∧ σ.running=false := by
  refine ⟨⟨?_,?_,?_⟩,?_⟩
  · by_contra hq
    exact hl (h.queued (Nat.pos_of_ne_zero hq)).1
  · cases ha : σ.asleep with
    | false => rfl
    | true => exact absurd (h.asleep ha).1 hl
  · intro fd
    cases hw : σ.waits fd with
    | false => rfl
    | true => exact absurd (h.waits fd hw).1 hl
  · cases hr : σ.running with
    | false => rfl
    | true => exact absurd (h.running hr).1 hl

/-- A coroutine with a timer is not queued, if the descriptor of its wait is
still registered. -/
theorem Settled.queued_of_asleep (h : Settled σ) (ha : σ.asleep=true)
    (hp : ∀ fd timed,σ.cont=.wait fd timed → σ.waits fd=true) : σ.queued=0 := by
  by_contra hq
  have hpos := Nat.pos_of_ne_zero hq
  obtain ⟨fd,timed,hk⟩ := (h.queued hpos).2.2.2 (h.asleep ha).2.2.1
  have hw := (h.woken hpos fd timed hk (hp fd timed hk)).2
  rw [ha] at hw
  cases hw

/-- A mapped coroutine is not queued, if the timer of its wait is still
pending. -/
theorem Settled.queued_of_waits (h : Settled σ) {fd : ℤ} (hw : σ.waits fd=true)
    (hp : σ.cont=.wait fd true → σ.asleep=true) : σ.queued=0 := by
  by_contra hq
  obtain ⟨timed,hk⟩ := (h.waits fd hw).2.2.2
  obtain ⟨rfl,ha⟩ := h.woken (Nat.pos_of_ne_zero hq) fd timed hk hw
  rw [hp hk] at ha
  cases ha

/-- Every hop keeps the discipline. -/
theorem Settled.hop (h : Settled σ) (hop : Hop ρ σ τ) : Settled τ := by
  cases hop with
  | stay => exact h
  | born hl =>
    obtain ⟨⟨hq,ha,hw⟩,hr⟩ := h.quiet_of_not_live (by rw [hl]; decide)
    constructor <;> simp [hq,ha,hw,hr]
  | shelved hl =>
    obtain ⟨⟨hq,ha,hw⟩,hr⟩ := h.quiet_of_not_live (by rw [hl]; decide)
    constructor <;> simp [hq,ha,hw,hr]
  | obtained hl =>
    obtain ⟨⟨hq,ha,hw⟩,hr⟩ := h.quiet_of_not_live (by rw [hl]; decide)
    constructor <;> simp [hq,ha,hw,hr]
  | expired ha hp =>
    have hq := h.queued_of_asleep ha hp
    obtain ⟨hl,hrun,hb,ht⟩ := h.asleep ha
    refine ⟨by simp [hq],?_,fun _ fd timed hk _ => ⟨ht fd timed hk,rfl⟩,by simp,h.waits,h.waiting,
      ?_,h.live⟩
    · simp [hl,hrun]
    · simp [hrun]
  | signalled fd hw hp =>
    have hq := h.queued_of_waits hw hp
    obtain ⟨hl,hrun,hb,timed,hk⟩ := h.waits fd hw
    have hnone : ∀ fd',Function.update σ.waits fd false fd'=false := by
      intro fd'
      rw [Function.update_apply]
      split_ifs with he
      · rfl
      · by_contra hw'
        obtain ⟨timed',hk'⟩ := (h.waits fd' (by simpa using hw')).2.2.2
        rw [hk] at hk'
        exact he (Cont.wait.inj hk').1.symm
    refine ⟨by simp [hq],?_,by simp [hnone],h.asleep,by simp [hnone],by simp,?_,h.live⟩
    · simp [hl,hrun,hk]
    · simp [hrun]
  | entered hq hk =>
    obtain ⟨hl,-,hrun,hs⟩ := h.queued hq
    have h1 : σ.queued=1 := by have := h.once; omega
    have hsleep : σ.sleepingBit=false := by
      by_contra hb
      obtain ⟨fd,timed,hfd⟩ := hs (by simpa using hb)
      exact hk fd timed hfd
    have hwait : σ.waitingBit=false := by
      by_contra hb
      obtain ⟨fd,timed,hfd⟩ := h.waiting (by simpa using hb)
      exact hk fd timed hfd
    have hasleep : σ.asleep=false := by
      by_contra ha
      have hb := (h.asleep (by simpa using ha)).2.2.1
      rw [hsleep] at hb
      cases hb
    have hwaits : ∀ fd,σ.waits fd=false := by
      intro fd
      by_contra hw
      obtain ⟨timed,hfd⟩ := (h.waits fd (by simpa using hw)).2.2.2
      exact hk fd timed hfd
    constructor <;> simp [h1,hl,hsleep,hwait,hasleep,hwaits,h.live hl]
  | returned fd timed hq hk =>
    obtain ⟨hl,-,hrun,hs⟩ := h.queued hq
    have h1 : σ.queued=1 := by have := h.once; omega
    have hwaits : ∀ fd',Function.update σ.waits fd false fd'=false := by
      intro fd'
      rw [Function.update_apply]
      split_ifs with he
      · rfl
      · by_contra hw
        obtain ⟨timed',hk'⟩ := (h.waits fd' (by simpa using hw)).2.2.2
        rw [hk] at hk'
        exact he (Cont.wait.inj hk').1.symm
    constructor <;> simp [h1,hl,hwaits,h.live hl]
  | requeued k hr =>
    obtain ⟨hq,ha,hw⟩ := h.quiet_of_running hr
    obtain ⟨hl,hs,hb⟩ := h.running hr
    constructor <;> simp [hq,ha,hw,hl,hs,hb,h.live hl]
  | slept hr =>
    obtain ⟨hq,ha,hw⟩ := h.quiet_of_running hr
    obtain ⟨hl,hs,hb⟩ := h.running hr
    constructor <;> simp [hq,hw,hl,hb,h.live hl]
  | overslept hr =>
    obtain ⟨hq,ha,hw⟩ := h.quiet_of_running hr
    obtain ⟨hl,hs,hb⟩ := h.running hr
    constructor <;> simp [hq,ha,hw,hl,hb,h.live hl]
  | blocked fd timed hr =>
    obtain ⟨hq,ha,hw⟩ := h.quiet_of_running hr
    obtain ⟨hl,hs,hb⟩ := h.running hr
    refine ⟨by simp [hq],by simp [hq],by simp [hq],?_,?_,by simp,by simp,h.live⟩
    · rintro rfl
      simp [hl]
    intro fd' hw'
    simp only [Function.update_apply] at hw'
    split_ifs at hw' with he
    · exact ⟨hl,rfl,rfl,timed,by rw [he]⟩
    · rw [hw fd'] at hw'
      cases hw'
  | released life doomed k hl hq hwb hlife =>
    obtain ⟨hq,ha,hw⟩ := hq
    have hne : life≠.live := by rcases hlife with rfl|rfl <;> decide
    constructor <;> simp [hq,ha,hw,hwb,hne]
  | robbed asleep waits ha hw _ _ =>
    refine ⟨h.once,h.queued,fun hq fd timed hk h' => ?_,fun h' => h.asleep (ha h'),
      fun fd h' => h.waits fd (hw fd h'),h.waiting,h.running,h.live⟩
    obtain ⟨ht,has⟩ := h.woken hq fd timed hk (hw fd h')
    refine ⟨ht,?_⟩
    by_contra hasleep
    rw [ha (by simpa using hasleep)] at has
    cases has

/-- A coroutine that is flagged waiting is mapped from its descriptor. -/
def Mapped (σ : Standing) : Prop :=
  ∀ fd timed,σ.waitingBit=true → σ.cont=.wait fd timed → σ.waits fd=true

/-- A hop that loses no registration keeps waiting coroutines mapped. -/
theorem Mapped.hop (h : Mapped σ) (hop : Hop ρ σ τ) (hf : ρ.fds) (hs : Settled σ) :
    Mapped τ := by
  cases hop with
  | stay => exact h
  | born => exact fun _ _ hb => by cases hb
  | shelved => exact fun _ _ hb => by cases hb
  | obtained => exact fun _ _ hb => by cases hb
  | expired => exact h
  | signalled => exact fun _ _ hb => by cases hb
  | entered => exact h
  | returned => exact fun _ _ hb => by cases hb
  | requeued k hr => exact fun _ _ hb => absurd hb (by simp [(hs.running hr).2.2])
  | slept hr => exact fun _ _ hb => absurd hb (by simp [(hs.running hr).2.2])
  | overslept hr => exact fun _ _ hb => absurd hb (by simp [(hs.running hr).2.2])
  | blocked fd timed hr =>
    intro fd' timed' _ hk
    obtain ⟨rfl,-⟩ := Cont.wait.inj hk
    exact Function.update_self ..
  | released life doomed k hl hq hw => exact fun _ _ hb => absurd hb (by simp [hw])
  | robbed asleep waits _ _ _ hfw =>
    obtain rfl := hfw hf
    exact h

end DycoCoroutine.CoroutineStanding
