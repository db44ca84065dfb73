import DycoCoroutine.HalfDuplexChannel

/-!
# Closing a half-duplex channel

`dyco_channel_destroy` is written as a handshake: it notifies a blocked peer,
waits until the peer has answered, and then releases the two descriptors, the
buffer and the structure. Its first condition assigns WANTCLOSE where it should
compare with it, and the assigned value is not zero, so the function returns
before the handshake. Nothing is ever released, and a peer that is blocked alone
stays blocked.
-/

namespace DycoCoroutine.ChannelClose

open ScheduleState RunInvariant EventFd HalfDuplexChannel

/-- A channel with its callers, the variable that holds its address, and what
has been released of it. -/
structure Session where
  /-- The channel and its callers. -/
  world : World
  /-- Whether `*chan` is not NULL. -/
  attached : Bool
  /-- How often `r_notifyfd` was closed. -/
  closedR : ℕ
  /-- How often `w_notifyfd` was closed. -/
  closedW : ℕ
  /-- How often `msg` was freed. -/
  freedMsg : ℕ
  /-- How often the structure was freed. -/
  freedChan : ℕ
  /-- The destroyers blocked in `hdc_wait`; `true` if they wait for `r_notifyfd`. -/
  destroyers : ℕ → Option Bool
  /-- The callers of `dyco_channel_destroy` that have returned, oldest first. -/
  returned : List ℕ

/-- `dyco_channel_create` -/
def newSession (size : ℕ) : Session := ⟨newChannel size,true,0,0,0,0,fun _ => none,[]⟩

/-- Replace the channel. -/
def setChan (s : Session) (ch : Channel) : Session := {s with world := {s.world with chan := ch}}

/-- `dyco_channel_destroy` returns to `c`. -/
def leave (s : Session) (c : ℕ) : Session := {s with returned := s.returned++[c]}

/-- The last lines of `dyco_channel_destroy`. -/
def release (s : Session) (c : ℕ) : Session :=
  leave {s with
    attached := false
    closedR := s.closedR+1
    closedW := s.closedW+1
    freedMsg := s.freedMsg+1
    freedChan := s.freedChan+1} c

/-- `hdc_wait(channel,channel->r_notifyfd,-1)` of a destroyer. -/
def awaitR (s : Session) (c : ℕ) (context : Context) : Except Fault Session :=
  if context=.outside then .ok (release s c)
  else if context=.asymmetric then .error .must
  else if s.world.rWaiter≠none then .error .epollCtl
  else .ok {s with
    world := {s.world with rWaiter := some c}
    destroyers := Function.update s.destroyers c (some true)}

/-- `hdc_wait(channel,channel->w_notifyfd,-1)` of a destroyer. -/
def awaitW (s : Session) (c : ℕ) (context : Context) : Except Fault Session :=
  if context=.outside then .ok (release s c)
  else if context=.asymmetric then .error .must
  else if s.world.wWaiter≠none then .error .epollCtl
  else .ok {s with
    world := {s.world with wWaiter := some c}
    destroyers := Function.update s.destroyers c (some false)}

/-- `dyco_channel_destroy` after its first condition. -/
def handshake (s : Session) (c : ℕ) (context : Context) : Except Fault Session :=
  match s.world.chan.status with
  | .wantRead => awaitW (setChan s (hdcNotifyR {s.world.chan with status := .wantClose})) c context
  | .wantWrite => awaitR (setChan s (hdcNotifyW {s.world.chan with status := .wantClose})) c context
  | _ => .ok (release s c)

/-- `dyco_channel_destroy` up to its return or to the point where it blocks. -/
def dycoChannelDestroy (s : Session) (c : ℕ) (context : Context) : Except Fault Session :=
  if s.attached=false then .ok (leave s c)
  else
    -- the condition is `channel->status = HDC_STATUS_WANTCLOSE`
    let s := setChan s {s.world.chan with status := .wantClose}
    if s.world.chan.status.value≠0 then .ok (leave s c) else handshake s c context

/-- A destroyer continues after `hdc_wait`. -/
def resumeDestroyer (s : Session) (c : ℕ) (onR : Bool) : Session :=
  let w := s.world
  let w := if onR then
      {w with rWaiter := if w.rWaiter=some c then none else w.rWaiter,
              chan := {w.chan with rNotify := 0}}
    else
      {w with wWaiter := if w.wWaiter=some c then none else w.wWaiter,
              chan := {w.chan with wNotify := 0}}
  release {s with world := w,destroyers := Function.update s.destroyers c none} c

/-- What can happen next. -/
inductive Act
  /-- A step of the channel other than its destruction. -/
  | channel (a : HalfDuplexChannel.Act)
  /-- A coroutine calls `dyco_channel_destroy`. -/
  | destroy (c : ℕ) (context : Context)
  /-- The scheduler resumes a blocked destroyer. -/
  | resume (c : ℕ)

/-- One step of a session. Calls on a freed channel are undefined. -/
def step (s : Session) : Act → Option (Except Fault Session)
  | .channel a =>
    if a matches .destroy then none
    else if 0<s.freedChan then some (.error .undefined)
    else (HalfDuplexChannel.step s.world a).map fun r => r.map fun w => {s with world := w}
  | .destroy c context =>
    if (s.world.calls c).isNone ∧ (s.destroyers c).isNone then some (dycoChannelDestroy s c context)
    else none
  | .resume c => (s.destroyers c).map fun onR => .ok (resumeDestroyer s c onR)

/-- The sessions that a new channel can reach when every step meets `cond`. -/
def Reachable (size : ℕ) (cond : Session → Act → Prop) (s : Session) : Prop :=
  Runs step cond (newSession size) s

/-- Blocked calls are resumed from a ready queue. -/
def fromQueue (s : Session) : Act → Bool
  | .channel (.resume c) => (s.world.calls c).any fun b => b.queued
  | _ => true

/-- Everything has been released exactly once. -/
structure Released (s : Session) : Prop where
  attached : s.attached=false
  closedR : s.closedR=1
  closedW : s.closedW=1
  freedMsg : s.freedMsg=1
  freedChan : s.freedChan=1

/-- Nothing has been released, and no destroyer is blocked. -/
structure Intact (s : Session) : Prop where
  attached : s.attached=true
  closedR : s.closedR=0
  closedW : s.closedW=0
  freedMsg : s.freedMsg=0
  freedChan : s.freedChan=0
  destroyers : ∀ c,s.destroyers c=none

variable {s t u : Session} {a : Act} {c d : ℕ} {context : Context} {b : Blocked}
  {cond : Session → Act → Prop} {size : ℕ}

theorem Intact.not_released (h : Intact s) : ¬Released s := by
  intro hr
  cases h.attached.symm.trans hr.attached

/-- The assigned status is taken for true, so the handshake is never reached. -/
theorem Intact.dycoChannelDestroy (h : Intact s) (c : ℕ) (context : Context) :
    dycoChannelDestroy s c context=
      .ok (leave (setChan s (HalfDuplexChannel.dycoChannelDestroy s.world.chan)) c) := by
  unfold ChannelClose.dycoChannelDestroy
  rw [if_neg (by rw [h.attached]; decide)]
  exact if_pos (show 5≠0 by decide)

theorem Intact.destroys (h : Intact s) (hc : s.world.calls c=none) (context : Context) :
    step s (.destroy c context)=
      some (.ok (leave (setChan s (HalfDuplexChannel.dycoChannelDestroy s.world.chan)) c)) := by
  simp only [step,hc,h.destroyers,h.dycoChannelDestroy,Option.isNone_none,and_self,if_true]

/-- All that a session does while nothing has been released. -/
theorem Intact.step_cases (h : Intact s) (ha : step s a=some (.ok t)) :
    (∃ x w,a=.channel x ∧ x≠.destroy ∧ HalfDuplexChannel.step s.world x=some (.ok w) ∧
      t={s with world := w}) ∨
    ∃ c context,a=.destroy c context ∧ s.world.calls c=none ∧
      t=leave (setChan s (HalfDuplexChannel.dycoChannelDestroy s.world.chan)) c := by
  cases a with
  | channel x =>
    simp only [step] at ha
    rw [if_neg (show ¬0<s.freedChan by rw [h.freedChan]; exact lt_irrefl 0)] at ha
    split_ifs at ha with hx
    obtain ⟨r,hr,hm⟩ := Option.map_eq_some_iff.mp ha
    obtain ⟨w,rfl,rfl⟩ := map_eq_ok hm
    refine .inl ⟨x,w,rfl,?_,hr,rfl⟩
    rintro rfl
    exact hx rfl
  | destroy c context =>
    simp only [step,h.dycoChannelDestroy] at ha
    split_ifs at ha with hc
    cases ha
    exact .inr ⟨c,context,rfl,Option.isNone_iff_eq_none.mp hc.1,rfl⟩
  | resume c =>
    simp only [step,h.destroyers,Option.map_none] at ha
    cases ha

theorem Intact.step (h : Intact s) (ha : step s a=some (.ok t)) : Intact t := by
  obtain ⟨x,w,-,-,-,rfl⟩|⟨c,context,-,-,rfl⟩ := h.step_cases ha
  · exact ⟨h.attached,h.closedR,h.closedW,h.freedMsg,h.freedChan,h.destroyers⟩
  · exact ⟨h.attached,h.closedR,h.closedW,h.freedMsg,h.freedChan,h.destroyers⟩

theorem Intact.runs (h : Intact s) (hr : Runs ChannelClose.step cond s t) : Intact t :=
  hr.invariant Intact h fun _ _ _ hi _ ha => hi.step ha

theorem intact_of_reachable (h : Reachable size cond s) : Intact s :=
  Intact.runs ⟨rfl,rfl,rfl,rfl,rfl,fun _ => rfl⟩ h

/-- A session takes the steps of the channel in which destroying is no more than
setting the status. -/
theorem world_reachable (h : Reachable size cond s) :
    HalfDuplexChannel.Reachable size (fun _ _ => True) s.world := by
  induction h with
  | refl => exact .refl
  | tail hr _ ha ih =>
    obtain ⟨x,w,-,-,hw,rfl⟩|⟨c,context,-,-,rfl⟩ := (intact_of_reachable hr).step_cases ha
    · exact .tail ih trivial hw
    · exact .tail (a := .destroy) ih trivial rfl

/-- The call `b` of `d` is blocked on a channel that is being closed. Nobody else
is blocked and nobody has been notified. -/
structure Stuck (d : ℕ) (b : Blocked) (w : World) : Prop where
  status : w.chan.status=.wantClose
  blocked : w.calls d=some b
  alone : ∀ c≠d,w.calls c=none
  rNotify : w.chan.rNotify=0
  wNotify : w.chan.wNotify=0

/-- On a channel that is being closed a call returns at once and changes nothing. -/
theorem firstHalf_wantClose {ch : Channel} (h : ch.status=.wantClose) (req : Request) :
    ∃ ret,firstHalf ch req=.ok (.returns ret [] ch) := by
  cases req with
  | send data =>
    simp only [firstHalf,dycoChannelSend,h]
    split_ifs
    · exact ⟨-2,rfl⟩
    · exact ⟨-1,rfl⟩
  | recv maxsize =>
    simp only [firstHalf,dycoChannelRecv,h]
    split_ifs
    · exact ⟨-2,rfl⟩
    · exact ⟨-1,rfl⟩

/-- No step of the channel helps a call that is blocked without a timer. -/
theorem Stuck.channel {w w' : World} {x : HalfDuplexChannel.Act} (h : Stuck d b w)
    (ht : b.timed=false) (hx : ∀ c,x=.resume c → c≠d)
    (ha : HalfDuplexChannel.step w x=some (.ok w')) : Stuck d b w' := by
  cases x with
  | call c context req timeout =>
    obtain ⟨ret,hret⟩ := firstHalf_wantClose h.status req
    simp only [HalfDuplexChannel.step] at ha
    split_ifs at ha with hc
    obtain hw : finish w ⟨c,req,false,ret,[]⟩ w.chan=w' := by
      have he := Option.some.inj ha
      rw [startCall,hret] at he
      exact Except.ok.inj he
    rw [← hw]
    have hcd : c≠d := by
      rintro rfl
      rw [h.blocked] at hc
      cases hc
    refine ⟨h.status,(Function.update_of_ne hcd.symm ..).trans h.blocked,fun e he => ?_,
      h.rNotify,h.wNotify⟩
    by_cases hec : e=c
    · exact hec ▸ Function.update_self ..
    · exact (Function.update_of_ne hec ..).trans (h.alone e he)
  | readable =>
    simp only [HalfDuplexChannel.step,h.rNotify,lt_irrefl,if_false] at ha
    split at ha <;> cases ha
  | writable =>
    simp only [HalfDuplexChannel.step,h.wNotify,lt_irrefl,if_false] at ha
    split at ha <;> cases ha
  | expire c =>
    by_cases hc : c=d
    · subst hc
      simp only [HalfDuplexChannel.step,h.blocked,ht] at ha
      cases ha
    · simp only [HalfDuplexChannel.step,h.alone c hc] at ha
      cases ha
  | resume c =>
    simp only [HalfDuplexChannel.step,h.alone c (hx c rfl)] at ha
    cases ha
  | destroy =>
    cases ha
    exact ⟨rfl,h.blocked,h.alone,h.rNotify,h.wNotify⟩

/-- A call that is stuck stays so over a step. -/
theorem Stuck.step (h : Stuck d b s.world) (hi : Intact s) (ht : b.timed=false)
    (hq : b.queued=false) (hf : fromQueue s a=true) (ha : step s a=some (.ok t)) :
    Stuck d b t.world := by
  obtain ⟨x,w,rfl,-,hw,rfl⟩|⟨c,context,-,-,rfl⟩ := hi.step_cases ha
  · refine h.channel ht (fun c hx => ?_) hw
    rintro rfl
    subst hx
    simp only [fromQueue,h.blocked,Option.any_some,hq] at hf
    cases hf
  · exact ⟨rfl,h.blocked,h.alone,h.rNotify,h.wNotify⟩

/-- A call that is stuck when the channel is destroyed is stuck for ever. -/
theorem Stuck.runs (h : Stuck d b s.world) (hi : Intact s) (ht : b.timed=false)
    (hq : b.queued=false) (hr : Runs ChannelClose.step (fun s a => fromQueue s a=true) s t) :
    Stuck d b t.world := by
  have hboth : Intact t ∧ Stuck d b t.world :=
    hr.invariant (fun t => Intact t ∧ Stuck d b t.world) ⟨hi,h⟩
      fun _ _ _ hi hf ha => ⟨hi.1.step ha,hi.2.step hi.1 ht hq hf ha⟩
  exact hboth.2

/-- For every session that a channel can reach, and whoever calls
`dyco_channel_destroy` there: the call returns at once without having notified
anybody, in no later state has the channel been released, and a peer that is
blocked alone, without a timer and not yet notified, stays blocked in every later
state. -/
theorem destroy_never_completes (h : Reachable size cond s) (hc : s.world.calls c=none)
    (context : Context) :
    ∃ t,step s (.destroy c context)=some (.ok t) ∧ t.returned=s.returned++[c] ∧
      ¬Released t ∧ t.attached=true ∧ t.world.calls=s.world.calls ∧
      t.world.chan.rNotify=s.world.chan.rNotify ∧ t.world.chan.wNotify=s.world.chan.wNotify ∧
      (∀ u,Runs step (fun _ _ => True) t u → ¬Released u ∧ u.attached=true) ∧
      ∀ d b,s.world.calls d=some b → b.timed=false → b.queued=false →
        (∀ e≠d,s.world.calls e=none) → s.world.chan.rNotify=0 → s.world.chan.wNotify=0 →
        ∀ u,Runs step (fun s a => fromQueue s a=true) t u → u.world.calls d=some b := by
  have hi : Intact s := intact_of_reachable h
  have ht := hi.step (hi.destroys hc context)
  refine ⟨_,hi.destroys hc context,rfl,ht.not_released,ht.attached,rfl,rfl,rfl,fun u hu => ?_,
    fun d b hb htimed hqueued halone hrn hwn u hu => ?_⟩
  · exact ⟨(ht.runs hu).not_released,(ht.runs hu).attached⟩
  · have hstuck : Stuck d b {s.world with
        chan := HalfDuplexChannel.dycoChannelDestroy s.world.chan} := ⟨rfl,hb,halone,hrn,hwn⟩
    exact (hstuck.runs ht htimed hqueued hu).blocked

/-- A receiver is blocked without a timer. -/
theorem receiver_blocks : ∃ s,Reachable 256 (fun _ _ => True) s ∧
    s.world.chan.status=.wantRead ∧ s.world.chan.rNotify=0 ∧ s.returned=[] ∧
    (s.world.calls 0).map Blocked.request=some (.recv 256) ∧ s.world.calls 1=none := by
  have h : (replay step (newSession 256) [.channel (.call 0 .symmetric (.recv 256) (-1))]).map
      (fun s => (s.world.chan.status,s.world.chan.rNotify,s.returned,
        (s.world.calls 0).map Blocked.request,(s.world.calls 1).isNone))=
      some (.wantRead,0,[],some (.recv 256),true) := by decide +kernel
  obtain ⟨s,hs,hq⟩ := Option.map_eq_some_iff.mp h
  simp only [Prod.mk.injEq,Option.isNone_iff_eq_none] at hq
  exact ⟨s,runs_of_replay hs,hq⟩

/-- A coroutine destroys the channel while a receiver is blocked. It returns, but
the receiver has not been notified and nothing has been released. -/
theorem destroy_skips_handshake :
    ∃ s t,Reachable 256 (fun _ _ => True) s ∧ s.world.chan.status=.wantRead ∧
      (s.world.calls 0).map Blocked.request=some (.recv 256) ∧
      step s (.destroy 1 .symmetric)=some (.ok t) ∧ t.returned=[1] ∧ t.attached=true ∧
      t.closedR=0 ∧ t.closedW=0 ∧ t.freedMsg=0 ∧ t.freedChan=0 ∧ t.world.chan.rNotify=0 ∧
      (t.world.calls 0).map Blocked.request=some (.recv 256) := by
  obtain ⟨s,hs,hst,hn,hret,hb,hc⟩ := receiver_blocks
  have hi : Intact s := intact_of_reachable hs
  have ht := hi.step (hi.destroys hc .symmetric)
  exact ⟨s,_,hs,hst,hb,hi.destroys hc .symmetric,congrArg (·++[1]) hret,ht.attached,ht.closedR,
    ht.closedW,ht.freedMsg,ht.freedChan,hn,hb⟩

/-- The same destroyer, in every later state. -/
theorem destroy_never_completes_receiverBlocked :
    ∃ s t,Reachable 256 (fun _ _ => True) s ∧ s.world.calls 1=none ∧
      step s (.destroy 1 .symmetric)=some (.ok t) ∧
      ∀ u,Runs step (fun _ _ => True) t u → ¬Released u ∧ u.attached=true := by
  obtain ⟨s,hs,-,-,-,-,hc⟩ := receiver_blocks
  obtain ⟨t,ht,-,-,-,-,-,-,hlater,-⟩ := destroy_never_completes hs hc .symmetric
  exact ⟨s,t,hs,hc,ht,hlater⟩

end DycoCoroutine.ChannelClose
