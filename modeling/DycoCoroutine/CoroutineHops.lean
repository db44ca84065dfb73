import DycoCoroutine.ScheduleEffect

/-!
# Every step moves each coroutine by one hop

The conditions under which the scheduler keeps its discipline, as executable
predicates on the state before a step and the action, and the theorem that
under them each step is one hop for every coroutine. Sound states bundle the
discipline of all coroutines with the store, the key order and the law of
control. The abort of a whole scheduler is a separate subject.
-/

namespace DycoCoroutine.CoroutineHops

open ScheduleState ScheduleOps ScheduleRun ScheduleControl CoroutineStanding ScheduleEffect
open KeyedSet RunInvariant SlottedMap

/-- The descriptor of the wait that `c` is suspended in, if any, is still
mapped to `c`. -/
def stillRegistered (s : Sched) (c : Co) : Bool :=
  match (s.co c).cont with
  | .wait fd _ => s.fdCoMap.lookup fd=some c
  | _ => true

/-- The timer of the wait that `c` is suspended in, if it has one, is still
pending. -/
def timerPending (s : Sched) (c : Co) : Bool :=
  match (s.co c).cont with
  | .wait _ true => c∈s.sleeping
  | _ => true

/-- The timer and the descriptor of one wait do not both fire: when phase A
takes a timer the descriptor has not been reported yet, and when phase D takes
a descriptor the timer has not expired yet. -/
def firesOnce (s : Sched) : Act → Bool
  | .expire now =>
    match s.sleeping with
    | c::_ => now-s.birth<s.key c || stillRegistered s c
    | [] => true
  | .event =>
    match s.pc with
    | .events (fd::_) => (s.fdCoMap.lookup fd).all (timerPending s)
    | _ => true
  | _ => true

/-- The cid of `c` still leads to `c`. -/
def ownCid (s : Sched) (c : Co) : Bool := s.cidCoMap.lookup (s.co c).cid=some c

/-- The cid of `c` leads to `c`, and no node hangs behind that of `c` in its slot. -/
def killable (s : Sched) (c : Co) : Bool := ownCid s c && !heads cidSlot s.cidCoMap (s.co c).cid

/-- A stack overflow is not found at the `yield` of a `dyco_coroutine_sleep(0)`
or of a wait, and a coroutine that is killed is the one that its cid leads to,
with no node behind its own. -/
def killsCleanly (s : Sched) : Act → Bool
  | .sleep msecs _ depth =>
    s.currThread.all fun c => !checkstk s c depth.1 || (msecs≠0 && killable s c)
  | .wait _ _ _ depth => s.currThread.all fun c => !checkstk s c depth.1
  | .exit depth => s.currThread.all fun c => !checkstk s c depth.1 || killable s c
  | .abort => s.currThread.all (killable s)
  | .checkStack depth => s.currThread.all fun c => !checkstk s c depth || killable s c
  | _ => true

/-- A coroutine that sets or drops a timer does not carry the key of a sleeper
from an earlier timer. -/
def keyUnused (s : Sched) : Act → Bool
  | .sleep msecs _ _ => s.currThread.all fun c => msecs=0 || s.sleeping.all fun d => s.key d≠s.key c
  | .wait _ _ _ _ => s.currThread.all fun c => s.sleeping.all fun d => s.key d≠s.key c
  | _ => true

/-- A descriptor that is waited on is not in `fd_co_map` already. -/
def fdUnmapped (s : Sched) : Act → Bool
  | .wait fd _ _ _ => s.fdCoMap.lookup fd=none
  | _ => true

/-- The tables stay what finite maps stand for: no coroutine gets the cid -1, which
marks an empty slot, and no table is resized. -/
def tablesPlain (s : Sched) : Act → Bool
  | .create _ => nextCid s≠-1 && hasRoom s.cidCoMap
  | .obtain p _ => (s.pools p).all fun cp =>
    cp.totalsize-cp.activenum≤0 || (nextCid s≠-1 && hasRoom s.cidCoMap)
  | .wait _ _ _ _ => hasRoom s.fdCoMap
  | _ => true

/-- The argument of a sleep is representable as an `int`. -/
def sleepFits : Act → Bool
  | .sleep msecs _ _ => msecs.toNat<2^31
  | _ => true

/-- The discipline of all coroutines with the bookkeeping around it. -/
structure Sound (s : Sched) : Prop where
  /-- Every coroutine keeps the discipline. -/
  settled : ∀ c,Settled (standing s c)
  /-- The store agrees with the records. -/
  store : Store s
  /-- The sleeping tree is in key order. -/
  ordered : Ordered s.key s.sleeping
  /-- The law of control. -/
  control : Control s

variable {s t : Sched} {a : Act} {c d : Co} {ρ : Known}

/-- A coroutine that can be killed is the one that its cid leads to. -/
theorem ownCid_of_killable (h : killable s c=true) : ownCid s c=true :=
  (Bool.and_eq_true_iff.mp h).1

/-- A coroutine in the tree has its SLEEPING bit set. -/
theorem Sound.sleeping_bit (hs : Sound s) (hc : c∈s.sleeping) :
    (s.co c).statusSleeping=true :=
  ((hs.settled c).asleep (by simpa [standing] using hc)).2.2.1

/-- The running coroutine is in no container and has cancelled everything. -/
theorem Sound.running (hs : Sound s) (hr : Running s c) :
    (standing s c).running=true ∧ Quiet (standing s c) ∧ (s.co c).life=.live ∧
    (s.co c).statusSleeping=false ∧ (s.co c).flagsWaiting=false ∧
    (standing s c).doomed=false := by
  have hrun : (standing s c).running=true := by simp [standing,hr.2]
  obtain ⟨hl,hb,hw⟩ := (hs.settled c).running hrun
  exact ⟨hrun,(hs.settled c).quiet_of_running hrun,hl,hb,hw,(hs.settled c).live hl⟩

/-- A freshly created scheduler is sound. -/
theorem sound_create (schedId stackSize pageSize now : ℕ) :
    Sound (dycoScheduleCreate schedId stackSize pageSize now) := by
  refine ⟨fun c => ?_,?_,List.Pairwise.nil,?_⟩
  · constructor <;> simp [standing,dycoScheduleCreate]
  · constructor <;> simp [dycoScheduleCreate]
  · constructor <;> simp [dycoScheduleCreate]

/-- What a step is to the books: it leaves them alone, or one coroutine or pool enters or
leaves them. -/
inductive Booked (s : Sched) : Act → Sched → Prop
  | kept {a : Act} {t : Sched} (h : books t=books s) : Booked s a t
  | create {urgent : Bool} {t : Sched} (h : dycoCoroutineCreate s urgent=.ok t) :
      Booked s (.create urgent) t
  | poolCreate {p stacksize : ℕ} {totalsize : ℤ} (h : s.pools p=none) :
      Booked s (.poolCreate p totalsize stacksize) (cpCreate s p totalsize stacksize)
  | obtain {p : ℕ} {urgent : Bool} {t : Sched} (h : cpObtain s p urgent=.ok t) :
      Booked s (.obtain p urgent) t
  | ended {a : Act} {t : Sched} {c : Co} (hl : (s.co c).life=.live) (h : Leaves s t c) :
      Booked s a t

/-- What a step must establish apart from the law of control. -/
structure Stepped (ρ : Known) (s : Sched) (a : Act) (t : Sched) : Prop where
  hops : ∀ d,Hop ρ (standing s d) (standing t d)
  store : Store t
  ordered : Ordered t.key t.sleeping
  booked : Booked s a t

/-- A step that leaves every standing alone. -/
theorem Stepped.of_frame (hs : Sound s) (hf : Frame s t)
    (hst : ∀ d,standing t d=standing s d) : Stepped ρ s a t :=
  ⟨fun d => hst d ▸ .stay _,hf.store hs.store,hf.ordered hs.ordered,.kept hf.books⟩

/-- A step that changes the standing of one coroutine. -/
theorem Stepped.of_one (hst : Store t) (ho : Ordered t.key t.sleeping) (hb : Booked s a t)
    {τ : Standing}
    (hop : Hop ρ (standing s c) τ)
    (hse : ∀ d,standing t d=if d=c then τ else standing s d) : Stepped ρ s a t := by
  refine ⟨fun d => ?_,hst,ho,hb⟩
  rw [hse]
  split_ifs with hd
  · rw [hd]
    exact hop
  · exact .stay _

/-- A coroutine that is not live is not in the tree. -/
theorem Sound.not_mem_sleeping (hs : Sound s) (hl : (s.co c).life≠.live) : c∉s.sleeping := by
  have ha := ((hs.settled c).quiet_of_not_live hl).1.asleep
  simpa [standing] using ha

/-- A created coroutine is ready. -/
theorem stepped_create {urgent : Bool} (hs : Sound s) (h : dycoCoroutineCreate s urgent=.ok t) :
    Stepped ρ s (.create urgent) t := by
  have hu := hs.store.unborn s.nextCo le_rfl
  obtain ⟨hst,ho,hse⟩ := create_spec hs.store (hs.not_mem_sleeping (by rw [hu]; decide)) h
  exact .of_one hst (ho hs.ordered) (.create h) (.born _ hu) hse

/-- The members of a new pool are idle. -/
theorem stepped_poolCreate {p stacksize : ℕ} {totalsize : ℤ} (hs : Sound s)
    (hp : s.pools p=none) : Stepped ρ s (.poolCreate p totalsize stacksize)
      (cpCreate s p totalsize stacksize) := by
  obtain ⟨hst,ho,hse⟩ := cpCreate_spec hs.store hp fun c hl =>
    ((hs.settled c).quiet_of_not_live (by rw [hl]; decide)).1.asleep
  refine ⟨fun d => ?_,hst,ho hs.ordered,.poolCreate hp⟩
  rcases hse d with hd|⟨hl,hd⟩
  · rw [hd]
    exact .stay _
  · rw [hd]
    exact .shelved _ hl

/-- An obtained coroutine is ready. -/
theorem stepped_obtain {p : ℕ} {urgent : Bool} (hs : Sound s) (h : cpObtain s p urgent=.ok t) :
    Stepped ρ s (.obtain p urgent) t := by
  rcases cpObtain_spec hs.store (fun c hl => hs.not_mem_sleeping (by rw [hl]; decide)) h with
    rfl|⟨c,hl,hst,ho,hse⟩
  · exact .of_frame hs (.refl t) fun _ => rfl
  · exact .of_one hst (ho hs.ordered) (.obtain h) (.obtained _ hl) hse

/-- A record update that no standing shows. -/
theorem standing_setCo_flags {f : Coroutine → Coroutine}
    (hst : standing (s.setCo c f) c=standing s c) (d : Co) :
    standing (s.setCo c f) d=standing s d := by
  by_cases hd : d=c
  · rw [hd,hst]
  · rw [standing_setCo,if_neg hd]

/-- A coroutine that is still registered waits for its descriptor. -/
theorem waits_of_stillRegistered (h : stillRegistered s c=true) (fd : ℤ) (timed : Bool)
    (hk : (standing s c).cont=.wait fd timed) : (standing s c).waits fd=true := by
  replace hk : (s.co c).cont=.wait fd timed := hk
  simpa [stillRegistered,hk,standing] using h

/-- Phase A, when the descriptor of an expired wait is still registered. -/
theorem stepped_expire {now : ℕ} (hs : Sound s) (hc : firesOnce s (.expire now)=true)
    (h : phaseA s now=.ok t) : Stepped ρ s a t := by
  rcases phaseA_cases h with ⟨-,rfl⟩|⟨c,u,hg,-,rfl⟩
  · exact .of_frame hs (.trans (.setClock s now) (.goto _ _)) fun _ => rfl
  · obtain ⟨rest,hl,hk⟩ := getExpired_head hg
    replace hl : s.sleeping=c::rest := hl
    replace hk : s.key c≤now-s.birth := hk
    have hreg : stillRegistered s c=true := by
      simp only [firesOnce,hl,Bool.or_eq_true,decide_eq_true_eq] at hc
      exact hc.resolve_left (Nat.not_lt.mpr hk)
    obtain ⟨hmem,hf,hst⟩ := getExpired_spec (s := s.setClock now) hg hs.ordered
    have hf' := hf.trans (frame_insertReady u c)
    refine .of_one (c := c) (hf'.store ((Frame.setClock s now).store hs.store))
      (hf'.ordered hs.ordered) (.kept hf'.books) (.expired _ (by simpa [standing] using hmem)
        (waits_of_stillRegistered hreg)) fun d => ?_
    rw [standing_insertReady]
    split_ifs with hd
    · rw [hst,if_pos rfl,standing_setClock]
    · rw [hst,if_neg hd,standing_setClock]

/-- The registration of every waiting coroutine is in place. -/
def Registered (s : Sched) : Prop := ∀ c,Mapped (standing s c)

/-- A waiting coroutine is found under its descriptor. -/
theorem Registered.lookup {fd : ℤ} {timed : Bool} (h : Registered s)
    (hw : (s.co c).flagsWaiting=true) (hk : (s.co c).cont=.wait fd timed) :
    s.fdCoMap.lookup fd=some c := by
  simpa [standing] using h c fd timed hw hk

/-- A coroutine gives the descriptor up that it was mapped to. -/
theorem update_waits_eq {fd : ℤ} (h : s.fdCoMap.lookup fd=some c) (hd : d≠c) :
    Function.update (standing s d).waits fd false=(standing s d).waits := by
  rw [Function.update_eq_self_iff]
  simp [standing,h,Ne.symm hd]

/-- Phase D, when the timer of a wait is still pending. -/
theorem stepped_event {fd : ℤ} {rest : List ℤ} (hs : Sound s) (hp : s.pc=.events (fd::rest))
    (hρ : ρ.reports fd) (hc : firesOnce s .event=true) (h : phaseD s fd rest=.ok t) :
    Stepped ρ s a t := by
  rcases phaseD_cases h with rfl|⟨c,hl,h⟩
  · exact .of_frame hs (.goto s _) fun _ => rfl
  · have hw : (standing s c).waits fd=true := by simpa [standing] using hl
    have hpend : (standing s c).cont=.wait fd true → (standing s c).asleep=true := by
      intro hk
      replace hk : (s.co c).cont=.wait fd true := hk
      simpa [firesOnce,hp,hl,timerPending,hk,standing] using hc
    obtain ⟨hf,hst⟩ := cancelWait_spec h
    have hbit : ((insertReady (s.goto (.events rest)) c).co c).flagsWaiting=true := by
      have hb := ((hs.settled c).waits fd hw).2.2.1
      have hi := congrArg Standing.waitingBit (standing_insertReady (s.goto (.events rest)) c c)
      rw [if_pos rfl] at hi
      exact hi.trans hb
    have hf' := ((Frame.goto s (.events rest)).trans (frame_insertReady _ c)).trans hf
    refine .of_one (c := c) (hf'.store hs.store) (hf'.ordered hs.ordered) (.kept hf'.books)
      (.signalled _ fd hw hpend hρ) fun d => ?_
    rw [hst,if_pos hbit,standing_insertReady]
    split_ifs with hd
    · simp [hd]
    · simp [hd,update_waits_eq hl hd]

/-- Taking the head off a ready queue. -/
theorem popQueue_spec {urgent : Bool} {rest : List Co}
    (hl : (if urgent then s.urgentReady else s.ready)=c::rest) :
    Frame s (popQueue s urgent c rest) ∧ 0<(standing s c).queued ∧
    ∀ d,standing (popQueue s urgent c rest) d=if d=c then
      {standing s c with queued := (standing s c).queued-1,readyBit := false}
      else standing s d := by
  have hf : Frame s (s.setCo c fun r => {r with statusReady := false}) := .setCo s c rfl rfl
  cases urgent with
  | false =>
    simp only [Bool.false_eq_true,if_false] at hl
    refine ⟨⟨hf.books,hf.ordered⟩,by simp [standing,hl],fun d => ?_⟩
    split_ifs with hd
    · subst hd
      ext <;> simp [popQueue,standing,hl]
    · ext <;> simp [popQueue,standing,hl,hd,Ne.symm hd]
  | true =>
    simp only [if_true] at hl
    refine ⟨⟨hf.books,hf.ordered⟩,by simp [standing,hl],fun d => ?_⟩
    split_ifs with hd
    · subst hd
      ext <;> simp [popQueue,standing,hl]
    · ext <;> simp [popQueue,standing,hl,hd,Ne.symm hd]

/-- The switch changes the standing of its coroutine only. -/
theorem activate_spec (c : Co) (hr : s.currThread=none) :
    Frame s (activate s c) ∧ ∀ d,standing (activate s c) d=if d=c then
      {standing s c with running := true} else standing s d := by
  refine ⟨(Frame.setThread s _).trans (.setCo _ c rfl rfl),fun d => ?_⟩
  split_ifs with hd
  · subst hd
    ext <;> simp [activate,standing]
  · ext <;> simp [activate,standing,hr,hd,Ne.symm hd]

/-- `resume` up to the coroutine's own code: outside a wait the coroutine only
becomes the current thread; in a wait its timer and its registration go. -/
theorem enterCo_spec (ho : Ordered s.key s.sleeping) (hr : s.currThread=none)
    (hb : c∈s.sleeping → (s.co c).statusSleeping=true) (h : enterCo s c=.ok t) :
    Frame s t ∧
    ((∀ fd timed,(s.co c).cont≠.wait fd timed) ∧
      (∀ d,standing t d=if d=c then {standing s c with running := true} else standing s d) ∨
    ∃ fd timed,(s.co c).cont=.wait fd timed ∧
      standing t c={standing s c with
        running := true, asleep := false, sleepingBit := false, waitingBit := false
        waits := if (s.co c).flagsWaiting then Function.update (standing s c).waits fd false
          else (standing s c).waits} ∧
      ∀ d≠c,standing t d={standing s d with
        waits := if (s.co c).flagsWaiting then Function.update (standing s d).waits fd false
          else (standing s d).waits}) := by
  obtain ⟨hf,hst⟩ := activate_spec c hr
  unfold enterCo at h
  split at h
  next hk =>
    cases h
    exact ⟨hf,.inl ⟨by simp [hk],hst⟩⟩
  next hk =>
    cases h
    exact ⟨hf,.inl ⟨by simp [hk],hst⟩⟩
  next fd timed hk =>
    obtain ⟨u,hu,h⟩ := bind_eq_ok h
    obtain ⟨hfu,hstu⟩ := cancelSleep_spec (hf.ordered ho) (by simpa [activate] using hb) hu
    obtain ⟨hft,hstt⟩ := cancelWait_spec h
    have hself := hstu c
    rw [if_pos rfl,hst,if_pos rfl] at hself
    have hbit : (u.co c).flagsWaiting=(s.co c).flagsWaiting := congrArg Standing.waitingBit hself
    refine ⟨(hf.trans hfu).trans hft,.inr ⟨fd,timed,hk,?_,fun d hd => ?_⟩⟩
    · rw [hstt,hself,hbit]
      split_ifs with hw
      · simp
      · ext <;> simp
        exact (by simpa using hw : (s.co c).flagsWaiting=false)
    · rw [hstt,hstu,if_neg hd,hst,if_neg hd,hbit]
      split_ifs <;> simp [hd]
  next hk =>
    cases h
    refine ⟨hf.trans (.setCo _ c rfl rfl),.inl ⟨by simp [hk],fun d => ?_⟩⟩
    rw [standing_setCo]
    split_ifs with hd
    · have hc := hst c
      rw [if_pos rfl] at hc
      rw [← hc]
      rfl
    · rw [hst,if_neg hd]

/-- A descriptor taken away leaves the other coroutines alone, except the one
it is mapped to. -/
theorem hop_robbed_waits {σ : Standing} {b : Bool} {fd : ℤ}
    (hf : ρ.fds → b=true → Function.update σ.waits fd false=σ.waits) :
    Hop ρ σ
      {σ with waits := if b then Function.update σ.waits fd false else σ.waits} := by
  refine .robbed σ σ.asleep _ id (fun x hx => ?_) (fun _ => rfl) fun hfds => ?_
  · split_ifs at hx
    · rw [Function.update_apply] at hx
      split_ifs at hx
      exact hx
    · exact hx
  · split_ifs with hb
    · exact hf hfds hb
    · rfl

/-- Phases B and C up to the entry into the coroutine. -/
theorem stepped_dispatch {urgent : Bool} {last : Option Co} {idx : ℕ} (hs : Sound s)
    (hp : s.pc=.queue urgent last idx) (hreg : ρ.fds → Registered s)
    (h : phaseBC s urgent last idx=.ok t) : Stepped ρ s a t := by
  have hcur : s.currThread=none := hs.control.currThread_eq_none (by simp [hp])
  rcases phaseBC_cases h with ⟨-,rfl⟩|⟨c,rest,hl,-,h⟩
  · unfold endPhase startPhase
    split_ifs <;> exact .of_frame hs (.goto s _) fun _ => rfl
  · obtain ⟨hf,hq,hst⟩ := popQueue_spec hl
    have hself := hst c
    rw [if_pos rfl] at hself
    have hcont : ((popQueue s urgent c rest).co c).cont=(s.co c).cont :=
      congrArg Standing.cont hself
    have hwait : ((popQueue s urgent c rest).co c).flagsWaiting=(s.co c).flagsWaiting :=
      congrArg Standing.waitingBit hself
    have hcur' : (popQueue s urgent c rest).currThread=none := by
      rw [← hcur]
      unfold popQueue
      split_ifs <;> rfl
    have hb : c∈(popQueue s urgent c rest).sleeping →
        ((popQueue s urgent c rest).co c).statusSleeping=true := by
      intro hc
      have ha : (standing s c).asleep=true := by
        rw [show (standing s c).asleep=_ from (congrArg Standing.asleep hself).symm]
        simpa [standing] using hc
      exact (congrArg Standing.sleepingBit hself).trans ((hs.settled c).asleep ha).2.2.1
    obtain ⟨hf',hcases⟩ := enterCo_spec
      (s := (popQueue s urgent c rest).goto (.inCo urgent last idx))
      (hf.ordered hs.ordered) hcur' hb h
    have hstore := hf'.store ((Frame.goto _ _).store (hf.store hs.store))
    have hord := hf'.ordered (hf.ordered hs.ordered)
    have hbook : Booked s a t := .kept (hf'.books.trans hf.books)
    rcases hcases with ⟨hk,hst'⟩|⟨fd,timed,hk,hc,hd⟩
    · refine .of_one (c := c) hstore hord hbook (.entered _ hq ?_) fun d => ?_
      · exact fun fd timed hw => hk fd timed (hcont.trans hw)
      · rw [hst',standing_goto,standing_goto,hself,hst]
        split_ifs <;> rfl
    · rw [Sched.goto_co,hwait,standing_goto,hself] at hc
      rw [Sched.goto_co,hwait] at hd
      rw [Sched.goto_co,hcont] at hk
      refine ⟨fun e => ?_,hstore,hord,hbook⟩
      by_cases he : e=c
      · -- the WAITING bit is clear only if the descriptor is no longer mapped
        have hnone : (s.co c).flagsWaiting=false →
            Function.update (standing s c).waits fd false=(standing s c).waits := by
          intro hw
          rw [Function.update_eq_self_iff]
          by_contra hx
          have hbit := ((hs.settled c).waits fd (by simpa using hx)).2.2.1
          rw [show (standing s c).waitingBit=_ from hw] at hbit
          cases hbit
        have hwaits : (if (s.co c).flagsWaiting then Function.update (standing s c).waits fd false
            else (standing s c).waits)=Function.update (standing s c).waits fd false := by
          split_ifs with hw
          · rfl
          · exact (hnone (by simpa using hw)).symm
        dsimp only at hc
        rw [hwaits] at hc
        rw [he,hc]
        exact .returned _ fd timed hq hk
      · rw [hd e he,standing_goto,hst,if_neg he]
        exact hop_robbed_waits fun hfds hw => update_waits_eq ((hreg hfds).lookup hw hk) he

/-- The running coroutine has set a timer or not, is marked for its end and
gives up control. -/
theorem stepped_end {u : Sched} {k : Cont} {b : Bool} (hs : Sound s) (hr : Running s c)
    (hf : Frame s u) (hcur : u.currThread=s.currThread)
    (hself : standing u c={standing s c with
      asleep := b, sleepingBit := b, cont := k, doomed := true})
    (hother : ∀ d≠c,Hop ρ (standing s d) (standing u d))
    (hkill : (u.co c).statusKilled=true → ownCid s c=true) (h : backToLoop u c=.ok t) :
    Stepped ρ s a t := by
  obtain ⟨hrun,hq,hl,hb,hw,hd⟩ := hs.running hr
  have hbit : c∈u.sleeping → (u.co c).statusSleeping=true := by
    intro hc
    have ha : (standing u c).asleep=true := by simpa [standing] using hc
    rw [hself] at ha
    exact (congrArg Standing.sleepingBit hself).trans ha
  have hlookup : (u.co c).statusKilled=true → u.cidCoMap.lookup (u.co c).cid=some c := by
    intro hk
    have hid : (u.co c).cid=(s.co c).cid := congrArg (fun p => p.2.2.1) (hf.identity c)
    rw [show u.cidCoMap=s.cidCoMap from congrArg Books.cidCoMap hf.books,hid]
    simpa [ownCid] using hkill hk
  obtain ⟨hst,ho,⟨v,w,hv,hleave⟩,life,hlife,hse⟩ := end_spec (hf.store hs.store)
    (hf.ordered hs.ordered) (hcur.trans hr.2) ((congrArg Standing.life hself).trans hl)
    ((congrArg Standing.waitingBit hself).trans hw) hbit (congrArg Standing.doomed hself) hlookup h
  refine ⟨fun d => ?_,hst,ho,.ended hl ⟨v,w,hv.trans hf.books,hleave⟩⟩
  rw [hse]
  split_ifs with hdc
  · rw [hdc,hself]
    have hop : Hop ρ (standing s c) _ := .released _ life true k hl hq hw hlife
    rw [hq.asleep] at hop
    exact hop
  · exact hother d hdc

/-- The running coroutine suspends itself without an overflow. -/
theorem stepped_suspend {u : Sched} {k : Cont} {depth : ℕ×ℕ} (hs : Sound s) (hr : Running s c)
    (hf : Frame s u) (hcur : u.currThread=s.currThread) (hcs : checkstk u c depth.1=false)
    (hd : (standing u c).doomed=false)
    (hself : Hop ρ (standing s c) {standing u c with cont := k,running := false})
    (hother : ∀ d≠c,Hop ρ (standing s d) (standing u d))
    (h : backToLoop (yield u c depth k) c=.ok t) : Stepped ρ s a t := by
  obtain ⟨hf',hst⟩ := suspend_spec hcs hd (hcur.trans hr.2) h
  refine ⟨fun d => ?_,(hf.trans hf').store hs.store,(hf.trans hf').ordered hs.ordered,
    .kept (hf.trans hf').books⟩
  rw [hst]
  split_ifs with hdc
  · rw [hdc]
    exact hself
  · exact hother d hdc

/-- The `yield` that finds an overflow, for a coroutine that has at most set a
timer. -/
theorem stepped_overflow {u : Sched} {k : Cont} {b : Bool} {depth : ℕ×ℕ} (hs : Sound s)
    (hr : Running s c) (hf : Frame s u) (hcur : u.currThread=s.currThread)
    (hcs : checkstk u c depth.1=true)
    (hself : standing u c={standing s c with asleep := b,sleepingBit := b})
    (hother : ∀ d≠c,Hop ρ (standing s d) (standing u d))
    (hkill : ownCid s c=true) (h : backToLoop (yield u c depth k) c=.ok t) :
    Stepped ρ s a t := by
  rw [yield,if_pos hcs] at h
  refine stepped_end (k := (standing s c).cont) (b := b) hs hr (hf.trans (.setCo u c rfl rfl)) hcur
    ?_ ?_ (fun _ => hkill) h
  · have hdoom : standing (u.setCo c fun r => {r with statusKilled := true,statusRunning := false}) c=
        {standing u c with doomed := true} := by
      ext <;> simp [standing]
    rw [hdoom,hself]
  · intro d hd
    rw [standing_setCo,if_neg hd]
    exact hother d hd

/-- A key search leaves the timers of the others alone, if the key is unused. -/
theorem hop_robbed_timer {σ : Standing} {b : Bool} (ht : ρ.timers → b=true) :
    Hop ρ σ {σ with asleep := σ.asleep && b} := by
  refine .robbed σ _ σ.waits (fun h => ?_) (fun _ => id) (fun htm => ?_) fun _ => rfl
  · exact (Bool.and_eq_true_iff.mp h).1
  · rw [ht htm,Bool.and_true]

/-- Queueing does not move the stack. -/
theorem checkstk_insertReady (depth : ℕ) : checkstk (insertReady s c) c depth=checkstk s c depth := by
  unfold insertReady
  split_ifs <;> simp [checkstk]

/-- A timer does not move the stack. -/
theorem checkstk_schedSleep (msecs : ℤ) (now depth : ℕ) :
    checkstk (scheduleSchedSleep s c msecs now) c depth=checkstk s c depth := by
  have hd : checkstk (dropKey s c) c depth=checkstk s c depth := by
    unfold dropKey
    split <;> rfl
  unfold scheduleSchedSleep
  split_ifs
  · exact hd
  · rw [← hd]
    simp [checkstk,setTimer]

/-- A registration does not move the stack. -/
theorem checkstk_schedWait {u : Sched} {fd : ℤ} (h : scheduleSchedWait s c fd=.ok u) (depth : ℕ) :
    checkstk u c depth=checkstk s c depth := by
  obtain ⟨v,hv,h⟩ := bind_eq_ok h
  unfold epollCtlAdd at hv
  split_ifs at hv
  cases hv
  cases h
  simp [checkstk]

/-- A sleep that fits into an `int` sets a timer. -/
theorem toInt_pos {n : ℕ} (h₀ : n≠0) (h : n<2^31) : 0<toInt n := by
  unfold toInt
  rw [Int.bmod_def]
  split_ifs <;> omega

/-- The timer call of a coroutine outside the tree: its own timer is set if the
time is positive, and every other coroutine makes a hop. -/
theorem schedSleep_hops (ρ : Known) (ho : Ordered s.key s.sleeping) (hc : c∉s.sleeping)
    (ht : ρ.timers → ∀ d∈s.sleeping,s.key d≠s.key c) (msecs : ℤ) (now : ℕ) :
    Frame s (scheduleSchedSleep s c msecs now) ∧
    standing (scheduleSchedSleep s c msecs now) c=(if msecs≤0 then standing s c
      else {standing s c with asleep := true,sleepingBit := true}) ∧
    ∀ d≠c,Hop ρ (standing s d) (standing (scheduleSchedSleep s c msecs now) d) := by
  obtain ⟨hf,hst⟩ := schedSleep_spec ho hc msecs now
  refine ⟨hf,?_,fun d hd => ?_⟩
  · rw [hst,if_pos rfl]
  · rw [hst,if_neg hd]
    refine hop_robbed_timer fun htm => ?_
    rw [find_eq_none.mpr (ht htm)]
    rfl

/-- `dyco_coroutine_sleep` with a nonzero time. -/
theorem stepped_timedSleep {msecs : UInt32} {now : ℕ} {depth : ℕ×ℕ} (hs : Sound s)
    (hr : Running s c) (hm : msecs≠0)
    (hkill : killsCleanly s (.sleep msecs now depth)=true)
    (ht : ρ.timers → keyUnused s (.sleep msecs now depth)=true)
    (hfit : ρ.sleeps → sleepFits (.sleep msecs now depth)=true)
    (h : backToLoop (yield (scheduleSchedSleep (s.setClock now) c (toInt msecs.toNat) now)
      c depth .sleep) c=.ok t) : Stepped ρ s a t := by
  obtain ⟨hrun,hq,hl,hb,hw,hd⟩ := hs.running hr
  have hc : c∉s.sleeping := by simpa [standing] using hq.asleep
  have hkey : ρ.timers → ∀ d∈s.sleeping,s.key d≠s.key c := by
    intro htm
    simpa [keyUnused,hr.2,hm] using ht htm
  obtain ⟨hf,hself,hother⟩ := schedSleep_hops ρ
    (s := s.setClock now) hs.ordered hc hkey (toInt msecs.toNat) now
  have hf' := (Frame.setClock s now).trans hf
  have hcur : (scheduleSchedSleep (s.setClock now) c (toInt msecs.toNat) now).currThread=
      s.currThread := currThread_eq (control_schedSleep _ _)
  cases hcs : checkstk s c depth.1 with
  | true =>
    have hcid : ownCid s c=true :=
      ownCid_of_killable (by simpa [killsCleanly,hr.2,hcs,hm] using hkill)
    refine stepped_overflow (b := decide (¬toInt msecs.toNat≤0)) hs hr hf' hcur
      ((checkstk_schedSleep _ _ _).trans hcs) ?_ hother hcid h
    rw [hself,standing_setClock]
    split_ifs with hle
    · ext <;> simp [hle,hq.asleep]
      exact hb
    · ext <;> simp [hle]
  | false =>
    refine stepped_suspend hs hr hf' hcur ((checkstk_schedSleep _ _ _).trans hcs) ?_ ?_ hother h
    · rw [hself]
      split_ifs <;> exact hd
    · rw [hself,standing_setClock]
      split_ifs with hle
      · refine .overslept _ hrun fun hsl => ?_
        have hlt : msecs.toNat<2^31 := by simpa [sleepFits] using hfit hsl
        have hpos := toInt_pos (fun h => hm (UInt32.toNat_inj.mp h)) hlt
        omega
      · exact .slept _ hrun

/-- `dyco_coroutine_sleep`, for a coroutine that is not killed after it has
queued itself. -/
theorem stepped_sleep {msecs : UInt32} {now : ℕ} {depth : ℕ×ℕ} (hs : Sound s)
    (hr : Running s c) (hkill : killsCleanly s (.sleep msecs now depth)=true)
    (ht : ρ.timers → keyUnused s (.sleep msecs now depth)=true)
    (hfit : ρ.sleeps → sleepFits (.sleep msecs now depth)=true)
    (h : dycoCoroutineSleep s c msecs now depth=.ok t) : Stepped ρ s a t := by
  obtain ⟨hrun,hq,hl,hb,hw,hd⟩ := hs.running hr
  unfold dycoCoroutineSleep at h
  dsimp only at h
  split_ifs at h with hm
  · have hcs : checkstk s c depth.1=false := by
      simpa [killsCleanly,hr.2,hm] using hkill
    refine stepped_suspend hs hr ((Frame.setClock s now).trans (frame_insertReady _ c))
      (currThread_eq control_insertReady) ((checkstk_insertReady _).trans hcs) ?_ ?_ ?_ h
    · rw [standing_insertReady,if_pos rfl]
      exact hd
    · rw [standing_insertReady,if_pos rfl,standing_setClock]
      exact .requeued _ .sleep hrun
    · intro d hdc
      rw [standing_insertReady,if_neg hdc,standing_setClock]
      exact .stay _
  · exact stepped_timedSleep hs hr hm hkill ht hfit h

/-- A registration concerns no sleeper. -/
theorem schedWait_sleeping {u : Sched} {fd : ℤ} (h : scheduleSchedWait s c fd=.ok u) :
    u.sleeping=s.sleeping ∧ u.key=s.key := by
  obtain ⟨v,hv,h⟩ := bind_eq_ok h
  unfold epollCtlAdd at hv
  split_ifs at hv
  cases hv
  cases h
  refine ⟨rfl,funext fun d => ?_⟩
  by_cases hd : d=c <;> simp [Sched.key,hd]

/-- A wait on a descriptor, for a coroutine that is not killed after it has
registered itself. -/
theorem stepped_wait {fd timeout : ℤ} {now : ℕ} {depth : ℕ×ℕ} (hs : Sound s) (hr : Running s c)
    (hkill : killsCleanly s (.wait fd timeout now depth)=true)
    (ht : ρ.timers → keyUnused s (.wait fd timeout now depth)=true)
    (hfd : ρ.fds → fdUnmapped s (.wait fd timeout now depth)=true)
    (h : waitev s c fd timeout now depth=.ok t) : Stepped ρ s a t := by
  obtain ⟨hrun,hq,hl,hb,hw,hd⟩ := hs.running hr
  have hc : c∉s.sleeping := by simpa [standing] using hq.asleep
  have hcs : checkstk s c depth.1=false := by simpa [killsCleanly,hr.2] using hkill
  obtain ⟨u,hu,h⟩ := bind_eq_ok h
  obtain ⟨hfu,hstu⟩ := schedWait_spec hu
  obtain ⟨hsl,hkeys⟩ := schedWait_sleeping hu
  replace hsl : u.sleeping=s.sleeping := hsl
  replace hkeys : u.key=s.key := hkeys
  obtain ⟨hf,hst⟩ := schedSleep_spec (hfu.ordered hs.ordered) (hsl ▸ hc) timeout now
  have hcu := currThread_eq (control_schedWait hu)
  have hcur : (scheduleSchedSleep u c timeout now).currThread=s.currThread :=
    (currThread_eq (control_schedSleep _ _)).trans hcu
  have hself : standing (scheduleSchedSleep u c timeout now) c={standing s c with
      waitingBit := true, waits := Function.update (standing s c).waits fd true
      asleep := decide (0<timeout), sleepingBit := decide (0<timeout)} := by
    rw [hst,if_pos rfl,hstu,standing_setClock]
    split_ifs with hle
    · ext <;> simp [not_lt.mpr hle,hq.asleep]
      exact hb
    · ext <;> simp [not_le.mp hle]
  have hfw := ((Frame.setClock s now).trans hfu).trans hf
  refine stepped_suspend hs hr hfw hcur ((checkstk_schedSleep _ _ _).trans
    ((checkstk_schedWait hu _).trans hcs)) ?_ ?_ (fun e he => ?_) h
  · rw [hself]
    exact hd
  · rw [hself]
    exact .blocked _ fd _ hrun
  · rw [hst,if_neg he,hstu,standing_setClock]
    simp only [he,decide_false,Bool.or_false]
    refine .robbed _ _ _ (fun h => (Bool.and_eq_true_iff.mp h).1) (fun x hx => ?_) (fun htm => ?_)
      fun hfds => ?_
    · rw [Function.update_apply] at hx
      split_ifs at hx
      exact hx
    · have hkey : ∀ d∈s.sleeping,s.key d≠s.key c := by
        simpa [keyUnused,hr.2] using ht htm
      rw [hsl,hkeys,find_eq_none.mpr hkey]
      simp
    · rw [Function.update_eq_self_iff]
      have hnone : s.fdCoMap.lookup fd=none := by simpa [fdUnmapped] using hfd hfds
      simp [standing,hnone]

/-- `execute` returns, and `yield` may still find an overflow. -/
theorem stepped_exit {depth : ℕ×ℕ} (hs : Sound s) (hr : Running s c)
    (hkill : killsCleanly s (.exit depth)=true) (h : coroutineExit s c depth=.ok t) :
    Stepped ρ s a t := by
  obtain ⟨hrun,hq,hl,hb,hw,hd⟩ := hs.running hr
  have hasleep : c∉s.sleeping := by simpa [standing] using hq.asleep
  simp only [standing,Bool.or_eq_false_iff] at hd
  have hother : ∀ (f g : Coroutine → Coroutine) (d : Co),d≠c →
      Hop ρ (standing s d) (standing ((s.setCo c f).setCo c g) d) := by
    intro f g d hdc
    rw [standing_setCo,if_neg hdc,standing_setCo,if_neg hdc]
    exact .stay _
  have hcs : checkstk (s.setCo c fun r => {r with statusExited := true}) c depth.1=
      checkstk s c depth.1 := by
    simp [checkstk]
  unfold coroutineExit yield at h
  rw [hcs] at h
  split_ifs at h with hover hex
  · have hcid : ownCid s c=true :=
      ownCid_of_killable (by simpa [killsCleanly,hr.2,hover] using hkill)
    refine stepped_end (k := (standing s c).cont) (b := false) hs hr
      ((Frame.setCo s c rfl rfl).trans (.setCo _ c rfl rfl)) rfl ?_ (hother _ _)
      (fun _ => hcid) h
    ext <;> simp [standing,hb,hasleep]
  · refine stepped_end (k := .entry) (b := false) hs hr
      ((Frame.setCo s c rfl rfl).trans (.setCo _ c rfl rfl)) rfl ?_ (hother _ _)
      (fun hk => ?_) h
    · ext <;> simp [standing,hb,hasleep]
    · simp [hd.2] at hk
  · simp at hex

/-- `dyco_coroutine_abort`, and the overflow that `dyco_coroutine_checkStack`
finds. -/
theorem stepped_kill (hs : Sound s) (hr : Running s c) (hkill : ownCid s c=true)
    (h : coroutineKill s c=.ok t) : Stepped ρ s a t := by
  obtain ⟨hrun,hq,hl,hb,hw,hd⟩ := hs.running hr
  unfold coroutineKill at h
  refine stepped_end (k := (standing s c).cont) (b := false) hs hr (.setCo s c rfl rfl) rfl ?_ ?_
    (fun _ => hkill) h
  · ext <;> simp [standing]
    · exact hb
    · simpa [standing] using hq.asleep
  · intro d hdc
    rw [standing_setCo,if_neg hdc]
    exact .stay _

/-- A stop queues its caller and changes no other standing. -/
theorem stopSuspend_spec (s : Sched) (c : Co) (depth : ℕ) :
    Frame s (stopSuspend s c depth) ∧ ∀ d,standing (stopSuspend s c depth) d=if d=c then
      {standing s c with queued := (standing s c).queued+1,readyBit := true,cont := .stop}
      else standing s d := by
  unfold stopSuspend
  dsimp only
  generalize hu : s.setCo c (fun r => {r with statusRunning := false,statusSchedcall := true})=u
  have hfu : Frame s u := hu ▸ .setCo s c rfl rfl
  have hsu : ∀ d,standing u d=standing s d := by
    intro d
    rw [← hu,standing_setCo]
    split_ifs with hd
    · rw [hd]
      rfl
    · rfl
  obtain ⟨hfv,hsv⟩ := savestk_spec (insertReady u c) c depth
  refine ⟨((hfu.trans (frame_insertReady u c)).trans hfv).trans (.setCo _ c rfl rfl),fun d => ?_⟩
  have hcont : ∀ v : Sched,standing (v.setCo c fun r => {r with cont := .stop}) d=if d=c then
      {standing v c with cont := .stop} else standing v d := fun v => standing_setCo v c d _
  rw [hcont,hsv,hsv,standing_insertReady,standing_insertReady,hsu,hsu]
  split_ifs <;> first | rfl | contradiction

/-- `dyco_schedcall_stop` queues the coroutine again and leaves the loop. -/
theorem stepped_stop (depth : ℕ) (hs : Sound s) (hr : Running s c) :
    Stepped ρ s a (dycoSchedcallStop s c depth) := by
  obtain ⟨hrun,-⟩ := hs.running hr
  obtain ⟨hf,hst⟩ := stopSuspend_spec s c depth
  obtain ⟨hfl,hsl⟩ := leaveCo_spec (scheduleStop (stopSuspend s c depth)) c
  have hcur : (stopSuspend s c depth).currThread=some c :=
    (currThread_eq (control_stopSuspend depth)).trans hr.2
  have hf' : Frame s (scheduleStop (stopSuspend s c depth)) :=
    hf.trans ⟨rfl,id⟩
  refine .of_one (c := c) ((hf'.trans hfl).store hs.store) ((hf'.trans hfl).ordered hs.ordered)
    (.kept (hf'.trans hfl).books) (.requeued _ .stop hrun) fun d => ?_
  have hstop : standing (scheduleStop (stopSuspend s c depth)) d=
      standing ((stopSuspend s c depth).setThread none) d := rfl
  unfold dycoSchedcallStop
  rw [hsl,hstop,standing_setThread_none hcur]
  split_ifs with hd
  · rw [hst,if_pos rfl]
  · rw [hst,if_neg hd]

/-- Under its conditions, every step except the abort of the scheduler is one
hop for each coroutine and keeps the store and the key order. -/
theorem Sound.stepped (timers fds sleeps : Prop) (hs : Sound s) (hfire : firesOnce s a=true)
    (hkill : killsCleanly s a=true) (ht : timers → keyUnused s a=true)
    (hfd : fds → fdUnmapped s a=true ∧ Registered s)
    (hfit : sleeps → sleepFits a=true) (ha : a≠.schedAbort) (h : Moves s a t) :
    Stepped ⟨timers,fds,sleeps,fun fd => ∃ rest,s.pc=.events (fd::rest)⟩ s a t := by
  cases h with
  | create hu h => exact stepped_create hs h
  | poolCreate hu hp => exact stepped_poolCreate hs hp
  | obtain hu h => exact stepped_obtain hs h
  | setUrgent hu h =>
    rcases setUrgent_cases h with rfl|⟨c,rfl⟩
    · exact .of_frame hs (.refl t) fun _ => rfl
    · exact .of_frame hs (.setCo s _ rfl rfl) (standing_setCo_flags (by ext <;> simp [standing]))
  | openFd => exact .of_frame hs (frame_openFd s _) fun _ => rfl
  | closeFd => exact .of_frame hs (frame_closeFd s _) fun _ => rfl
  | run hu h =>
    unfold dycoScheduleRun at h
    split at h <;> cases h <;> exact .of_frame hs ⟨rfl,id⟩ fun _ => rfl
  | loop hp =>
    unfold loopHead
    split_ifs <;> exact .of_frame hs ⟨rfl,id⟩ fun _ => rfl
  | expire hp hn h => exact stepped_expire hs hfire h
  | dispatch hp h => exact stepped_dispatch hs hp (fun hf => (hfd hf).2) h
  | poll hp => exact .of_frame hs (.goto s _) fun _ => rfl
  | eventsDone hp => exact .of_frame hs (.goto s _) fun _ => rfl
  | event hp h => exact stepped_event hs hp ⟨_,hp⟩ hfire h
  | sleep hr hn h => exact stepped_sleep hs hr hkill ht hfit h
  | wait hr hn hto h => exact stepped_wait hs hr hkill ht (fun hf => (hfd hf).1) h
  | exit hr h => exact stepped_exit hs hr hkill h
  | abort hr h =>
    exact stepped_kill hs hr (ownCid_of_killable (by simpa [killsCleanly,hr.2] using hkill)) h
  | checkStack hr h =>
    split_ifs at h with hcs
    · exact stepped_kill hs hr (ownCid_of_killable (by simpa [killsCleanly,hr.2,hcs] using hkill)) h
    · cases h
      exact .of_frame hs (.refl s) fun _ => rfl
  | stop hr => exact stepped_stop _ hs hr
  | schedAbort => exact absurd rfl ha
  | epollInit hr hf =>
    unfold dycoEpollInit
    split_ifs
    · exact .of_frame hs (.refl s) fun _ => rfl
    · exact .of_frame hs ((frame_openFd s _).trans (.setCo _ _ rfl rfl))
        (standing_setCo_flags (s := openFd s _) (by ext <;> simp [standing]))
  | epollDestroy hr =>
    unfold dycoEpollDestroy
    split_ifs
    · refine .of_frame hs ((Frame.setCo s _ rfl rfl).trans (frame_closeFd _ _)) fun d => ?_
      rw [standing_closeFd]
      exact standing_setCo_flags (by ext <;> simp [standing]) d
    · exact .of_frame hs (.refl s) fun _ => rfl
  | signalInit hr hf =>
    unfold dycoSignalInit
    split_ifs
    · exact .of_frame hs (.refl s) fun _ => rfl
    · exact .of_frame hs ((frame_openFd s _).trans (.setCo _ _ rfl rfl))
        (standing_setCo_flags (s := openFd s _) (by ext <;> simp [standing]))
  | signalDestroy hr =>
    unfold dycoSignalDestroy
    split_ifs
    · refine .of_frame hs ((Frame.setCo s _ rfl rfl).trans (frame_closeFd _ _)) fun d => ?_
      rw [standing_closeFd]
      exact standing_setCo_flags (by ext <;> simp [standing]) d
    · exact .of_frame hs (.refl s) fun _ => rfl

/-- Sound states are kept by every step that meets the conditions. -/
theorem Sound.moves (hs : Sound s) (hfire : firesOnce s a=true) (hkill : killsCleanly s a=true)
    (ha : a≠.schedAbort) (h : Moves s a t) : Sound t := by
  obtain ⟨hops,hst,ho,-⟩ := hs.stepped False False False hfire hkill
    False.elim False.elim False.elim ha h
  exact ⟨fun c => (hs.settled c).hop (hops c),hst,ho,hs.control.moves h⟩

/-- Registrations stay in place when no descriptor is waited on twice. -/
theorem Registered.moves (h : Registered s) (hs : Sound s) (hfire : firesOnce s a=true)
    (hkill : killsCleanly s a=true) (hfd : fdUnmapped s a=true) (ha : a≠.schedAbort)
    (hm : Moves s a t) : Registered t := by
  obtain ⟨hops,-⟩ := hs.stepped False True False hfire hkill False.elim (fun _ => ⟨hfd,h⟩)
    False.elim ha hm
  exact fun c => (h c).hop (hops c) trivial (hs.settled c)

end DycoCoroutine.CoroutineHops
