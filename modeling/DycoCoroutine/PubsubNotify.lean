import DycoCoroutine.PubsubClose
import DycoCoroutine.PubsubDelivery

/-!
# Who is notified by a subscriber

A subscribe call that gets PSC_STATUS_EMPTY from `psc_subwait` takes itself for the last
one to acknowledge: it copies the buffer and notifies `pub_notifyfd`. It gets the same
status when it does not wait on a channel on which nothing is being published. Then
nobody waits on `pub_notifyfd`, and the buffer holds a message whose publish call has
returned. As long as subscribers wait, publishers wait for them, and a channel with
blocked subscribers is destroyed only before its first message, every notification
answers a blocked publisher or destroyer, and every message that is returned is being
published.
-/

namespace DycoCoroutine.PubsubNotify

open ScheduleState RunInvariant EventFd PubsubChannel PubsubDelivery

variable {w₀ w t u : World} {v : Subscription} {p : Publisher} {a : Act} {call c k : ℕ} {fd : ℤ}
  {st : Status} {request : Request} {r : Reply}

/-- What `dyco_pubsub_subscribe` goes on with after `psc_subwait` in this step: the
channel then, the number of the call and the status it has got. -/
def afterSubwait (w : World) : Act → Option (World×ℕ×Status)
  | .subscribe c context maxsize timeout fd =>
    if callable w c context fd=true ∧ ¬(w.freed=true ∨ maxsize<w.chan.maxsize) ∧
        (w.chan.status=.empty ∨ w.chan.status=.trans) ∧ (timeout=0 ∨ context=.outside) then
      some (numbered w,w.calls,w.chan.status)
    else none
  | .resumeSubscriber c =>
    match w.subs.find? fun v => v.co=c with
    | none => none
    | some v =>
      if ¬(w.freed=true ∨ w.chan.sublist=[]) then
        match eventfdRead w.fds v.notifyfd with
        | none => some (leave w v,v.call,.nop)
        | some count =>
          let u := acknowledge (leave w v)
          some (u,v.call,if u.chan.ackRem=0 then .empty else statusOf count)
      else none
  | _ => none

/-- The step is the rest of the call. -/
theorem step_of_afterSubwait (h : afterSubwait w a=some (u,call,st)) :
    step w a=some (subscribeAfterWait u call st) := by
  cases a with
  | subscribe c context maxsize timeout fd =>
    obtain ⟨⟨hc,hok,hst,hnow⟩,h⟩ := Option.ite_none_right_eq_some.mp h
    cases h
    have hok' : ¬((numbered w).freed=true ∨ maxsize<(numbered w).chan.maxsize) := hok
    have hst' : (numbered w).chan.status=.empty ∨ (numbered w).chan.status=.trans := hst
    rw [step,if_pos hc,dycoPubsubSubscribe,if_neg hok',if_pos hst',if_pos hnow]
    rfl
  | resumeSubscriber c =>
    simp only [afterSubwait] at h
    split at h
    · cases h
    next v hv =>
      obtain ⟨hne,h⟩ := Option.ite_none_right_eq_some.mp h
      have hstep : step w (.resumeSubscriber c)=some (subscribeAfterYield w v) := by
        simp only [step,hv]
      rw [hstep]
      split at h
      next hr =>
        cases h
        rw [subscribeAfterYield_none hne hr]
      next count hr =>
        cases h
        rw [subscribeAfterYield_some hne hr]
  | publish => cases h
  | destroy => cases h
  | resumePublisher => cases h
  | openOther => cases h
  | closeOther => cases h

/-- A notification of `pub_notifyfd` by this step is due: a subscriber that was notified
has just acknowledged, no other one is left, and a publisher or destroyer is blocked that
nobody has notified yet. -/
def Due (w : World) (a : Act) (u : World) : Prop :=
  (∃ v∈w.subs,a=.resumeSubscriber v.co ∧ (eventfdRead w.fds v.notifyfd).isSome) ∧
    notified u=[] ∧ ∃ p∈u.pubs,p.notifyfd=u.chan.pubNotifyfd ∧ u.fds p.notifyfd=some (.event 0)

/-- No subscribe call made since `w₀` has returned bytes of a message whose publish call
had returned by then, or which nobody has published. -/
def Fresh (w₀ w : World) : Prop :=
  ∀ call ret bytes source,.subscribed call ret bytes source∈w.log → w₀.calls ≤ call → bytes≠[] →
    ∃ k,source=some k ∧ ∀ data targets ret,.published k data targets ret∉w₀.log

/-- A subscribe call that does not wait, while nothing is being published. -/
def premature (w : World) : Act → Bool
  | .subscribe c context maxsize timeout fd =>
    callable w c context fd && !w.freed && !decide (maxsize<w.chan.maxsize) && w.chan.status=.empty &&
      (timeout=0 || context=.outside)
  | _ => false

/-- Subscribers wait or find a message in transit, publishers wait for the subscribers
they notify, and so do destroyers, before the first message; and neither is resumed before
it was notified. -/
def orderly (w : World) : Act → Bool
  | .publish _ context data _ => context≠.outside || w.freed || w.chan.status≠.empty ||
      w.chan.subNum=0 || data.length=0 || w.chan.maxsize<data.length
  | .destroy _ context _ => w.freed || w.chan.subNum=0 ||
      context≠.outside && w.chan.status=.empty && w.chan.msglen=0
  | .resumePublisher c => genuine w (.resumePublisher c)
  | a => !premature w a

/-! ## Waiting for acknowledgements -/

/-- The publisher or destroyer `p` waits for the subscribers that were notified. -/
structure Awaited (w : World) (p : Publisher) : Prop where
  pubs : w.pubs=[p]
  waits : p.notifyfd=w.chan.pubNotifyfd
  apart : ∀ v∈w.subs,v.notifyfd≠p.notifyfd
  /-- It is not notified while somebody is left to acknowledge. -/
  counter : ∃ n,w.fds p.notifyfd=some (.event n) ∧ (w.chan.ackRem≠0 → n=0)
  busy : w.chan.status≠.empty
  told : ∀ v∈notified w,w.fds v.notifyfd=some (.event w.chan.status.value)
  /-- The buffer is empty or holds the message of `p`. -/
  held : w.chan.msglen=0 ∨ w.source=some p.call
  /-- A destroyer has notified all blocked subscribers. -/
  closing : p.request=.destroy → w.chan.status=.close ∧ ∀ v∈w.subs,v∈notified w

/-- The channel is in use, and nobody is notified unless one call waits for it. -/
structure Settled (w : World) : Prop where
  kept : w.freed=false
  roster : Roster w
  ackRem : w.chan.ackRem=(notified w).length
  phase : (w.chan.status=.empty ∧ w.pubs=[] ∧ notified w=[]) ∨ ∃ p,Awaited w p

/-- A change away from the channel and its counters. -/
theorem Settled.of_same (h : Settled w) (hs : PubsubClose.state t=PubsubClose.state w)
    (hsource : t.source=w.source)
    (hf : ∀ x n,w.fds x=some (.event n) → t.fds x=some (.event n)) : Settled t := by
  simp only [PubsubClose.state,Prod.mk.injEq] at hs
  obtain ⟨hfreed,hchan,hsubs,hpubs⟩ := hs
  have hfds : ∀ v∈w.subs,t.fds v.notifyfd=w.fds v.notifyfd := by
    intro v hv
    obtain ⟨n,hn⟩ := h.roster.counters v hv
    rw [hn,hf _ n hn]
  have hn : notified t=notified w := notified_of_same hsubs hfds
  refine ⟨hfreed.trans h.kept,h.roster.of_same (by rw [hchan]) (by rw [hchan]) hsubs
    fun x n hx => ⟨n,hf x n hx⟩,by rw [hchan,hn,h.ackRem],?_⟩
  rcases h.phase with ⟨hst,hp,hnone⟩|⟨p,hp⟩
  · exact .inl ⟨by rw [hchan,hst],hpubs.trans hp,hn.trans hnone⟩
  · obtain ⟨n,hcount,hzero⟩ := hp.counter
    refine .inr ⟨p,hpubs.trans hp.pubs,by rw [hchan,hp.waits],by rw [hsubs]; exact hp.apart,
      ⟨n,hf _ n hcount,by rw [hchan]; exact hzero⟩,by rw [hchan]; exact hp.busy,fun v hv => ?_,
      by rw [hchan,hsource]; exact hp.held,by rw [hchan,hsubs,hn]; exact hp.closing⟩
    rw [hn] at hv
    rw [hchan]
    exact hf _ _ (hp.told v hv)

/-- A subscriber blocks. -/
theorem Settled.enlist (h : Settled w) (hfd : w.fds fd=none) (hst : w.chan.status≠.close)
    (call c : ℕ) : Settled (enlist w call c fd) := by
  have hf : ∀ x n,w.fds x=some (.event n) → openEvent w.fds fd x=some (.event n) :=
    update_of_event fun n => by simp [hfd]
  have hn : notified (PubsubChannel.enlist w call c fd)=notified w := by
    refine (notified_enlist ..).trans (notified_of_same rfl fun v hv => ?_)
    obtain ⟨n,hn⟩ := h.roster.counters v hv
    rw [hn]
    exact hf _ n hn
  refine ⟨h.kept,h.roster.enlist hfd call c,h.ackRem.trans (congrArg List.length hn.symm),?_⟩
  rcases h.phase with ⟨hempty,hpubs,hnone⟩|⟨p,hp⟩
  · exact .inl ⟨hempty,hpubs,hn.trans hnone⟩
  obtain ⟨n,hcount,hzero⟩ := hp.counter
  refine .inr ⟨p,hp.pubs,hp.waits,fun v hv => ?_,⟨n,hf _ n hcount,hzero⟩,hp.busy,fun v hv => ?_,
    hp.held,fun hd => absurd (hp.closing hd).1 hst⟩
  · rcases List.mem_cons.mp hv with rfl|hv
    · rintro rfl
      rw [hfd] at hcount
      cases hcount
    · exact hp.apart v hv
  · rw [hn] at hv
    exact hf _ _ (hp.told v hv)

/-- A publisher or destroyer notifies the blocked subscribers and waits for them. What it
changes before is in `u`. -/
theorem Settled.announce (u : World) (request : Request) (h : Settled w)
    (hempty : w.chan.status=.empty) (hfd : w.fds fd=none) (hfreed : u.freed=w.freed)
    (hlist : u.chan.sublist=w.chan.sublist)
    (hnum : u.chan.subNum=w.chan.subNum) (hsubs : u.subs=w.subs) (hpubs : u.pubs=w.pubs)
    (hfds : u.fds=w.fds) (hst : u.chan.status=.trans ∨ u.chan.status=.close)
    (hheld : u.chan.msglen=0 ∨ u.source=some call)
    (hclosing : request=.destroy → u.chan.status=.close) (c : ℕ) :
    Settled (awaitAcks (pscSubnotify u) call c fd request) := by
  obtain ⟨hnone,hquiet⟩ : w.pubs=[] ∧ notified w=[] := by
    rcases h.phase with ⟨-,hp⟩|⟨p,hp⟩
    · exact hp
    · exact absurd hempty hp.busy
  have hzero : ∀ v∈u.subs,u.fds v.notifyfd=some (.event 0) := by
    intro v hv
    rw [hsubs] at hv
    obtain ⟨n,hn⟩ := h.roster.counters v hv
    have hzero : n=0 := by
      by_contra hne
      have hmem : v∈notified w := List.mem_filter.mpr
        ⟨hv,Option.isSome_of_eq_some (eventfdRead_eq_some hn (Nat.pos_of_ne_zero hne))⟩
      rw [hquiet] at hmem
      cases hmem
    rw [hfds,hn,hzero]
  have hroster : Roster u := h.roster.of_same hlist hnum hsubs (hfds ▸ Keeps.refl _)
  have hfd' : u.fds fd=none := by rw [hfds,hfd]
  have hpos : 0<u.chan.status.value := by
    rcases hst with hst|hst <;> rw [hst] <;> decide
  obtain ⟨hcount,hall⟩ := notified_awaitAcks hroster hzero hfd' hpos call c request
  refine ⟨hfreed.trans h.kept,hroster.subnotify.awaitAcks (hroster.fds_subnotify hfd') ..,?_,
    .inr ⟨_,congrArg (_::·) (hpubs.trans hnone),rfl,fun v hv => ?_,
    ⟨0,Function.update_self ..,fun _ => rfl⟩,?_,fun v hv => ?_,hheld,fun hd => ⟨hclosing hd,fun v hv => ?_⟩⟩⟩
  · rw [hall]
    exact hroster.subNum
  · intro he
    have hmem := hzero v hv
    have he : v.notifyfd=fd := he
    rw [he,hfd'] at hmem
    cases hmem
  · show u.chan.status≠.empty
    rcases hst with hst|hst <;> rw [hst] <;> decide
  · rw [hall] at hv
    exact hcount v hv
  · rw [hall]
    exact hv

/-- A subscriber leaves, `ack_rem` is set, and at most the counter of `p` is written. -/
theorem Awaited.leave {fds : Table} {ackRem : ℕ} (hp : Awaited w p)
    (hf : ∀ x≠p.notifyfd,fds x=(leave w v).fds x)
    (hcounter : ∃ n,fds p.notifyfd=some (.event n) ∧ (ackRem≠0 → n=0)) :
    notified {leave w v with fds := fds,chan := {(leave w v).chan with ackRem := ackRem}}=
      notified (leave w v) ∧
    Awaited {leave w v with fds := fds,chan := {(leave w v).chan with ackRem := ackRem}} p := by
  have hn : notified {PubsubChannel.leave w v with
      fds := fds,chan := {(PubsubChannel.leave w v).chan with ackRem := ackRem}}=
      notified (PubsubChannel.leave w v) :=
    notified_of_same rfl fun u hu => hf _ (hp.apart u (mem_leave hu).1)
  refine ⟨hn,hp.pubs,hp.waits,fun u hu => hp.apart u (mem_leave hu).1,hcounter,hp.busy,fun u hu => ?_,
    hp.held,fun hd => ⟨(hp.closing hd).1,fun u hu => ?_⟩⟩
  · rw [hn,notified_leave] at hu
    obtain ⟨hu,hne⟩ := List.mem_filter.mp hu
    have hsub := (List.mem_filter.mp hu).1
    have hne : u.notifyfd≠v.notifyfd := by simpa using hne
    exact (hf _ (hp.apart u hsub)).trans ((fds_leave hne).trans (hp.told u hu))
  · rw [hn,notified_leave]
    obtain ⟨hu,hne⟩ := mem_leave hu
    exact List.mem_filter.mpr ⟨(hp.closing hd).2 u hu,by simpa using hne⟩

/-- A subscriber that was not notified leaves. -/
theorem Settled.leave (h : Settled w) (hv : v∈w.subs) (hr : eventfdRead w.fds v.notifyfd=none) :
    Settled (leave w v) := by
  have hn := notified_leave_of_none hr
  refine ⟨h.kept,h.roster.leave hv,h.ackRem.trans (congrArg List.length hn.symm),?_⟩
  rcases h.phase with ⟨hempty,hpubs,hnone⟩|⟨p,hp⟩
  · exact .inl ⟨hempty,hpubs,hn.trans hnone⟩
  · obtain ⟨n,hcount,hzero⟩ := hp.counter
    have hcount' := (fds_leave (hp.apart v hv).symm).trans hcount
    exact .inr ⟨p,(hp.leave (fun _ _ => rfl) ⟨n,hcount',hzero⟩).2⟩

/-- A notified subscriber leaves and acknowledges. -/
theorem Settled.acknowledge {fds : Table} (h : Settled w) (hp : Awaited w p) (hv : v∈notified w)
    (hf : ∀ x≠p.notifyfd,fds x=(PubsubChannel.leave w v).fds x)
    (hcounter : ∃ n,fds p.notifyfd=some (.event n) ∧
      ((acknowledge (PubsubChannel.leave w v)).chan.ackRem≠0 → n=0)) :
    Settled {acknowledge (PubsubChannel.leave w v) with fds := fds} := by
  have hsub := (List.mem_filter.mp hv).1
  have hlen := (notified_perm h.roster.distinct hv).length_eq
  obtain ⟨hn,hp'⟩ := hp.leave hf hcounter
  refine ⟨h.kept,(h.roster.leave hsub).of_same rfl rfl rfl fun x n hx => ?_,?_,.inr ⟨p,hp'⟩⟩
  · by_cases hx' : x=p.notifyfd
    · obtain ⟨m,hm,-⟩ := hcounter
      exact ⟨m,hx' ▸ hm⟩
    · exact ⟨n,(hf x hx').trans hx⟩
  · refine Eq.trans ?_ (congrArg List.length hn.symm)
    show sizePred w.chan.ackRem=_
    rw [h.ackRem,hlen]
    rfl

/-! ## Steps -/

/-- What a step returns to subscribers is from a message that is being published. -/
def Answers (w t : World) : Prop :=
  ∀ call ret bytes source,.subscribed call ret bytes source∈t.log →
    .subscribed call ret bytes source∈w.log ∨ (bytes≠[] → ∃ p∈w.pubs,source=some p.call)

/-- The channel is in use, or has been freed without a blocked subscriber. -/
def Sound (w : World) : Prop := w.freed=true ∧ w.subs=[] ∨ Settled w

theorem answers_of_log (h : t.log=w.log) : Answers w t :=
  fun _ _ _ _ hm => .inl (h ▸ hm)

/-- A reply without bytes. -/
theorem answers_of_bare (h : t.log=w.log++[r])
    (hr : ∀ call ret bytes source,r=.subscribed call ret bytes source → bytes=[]) : Answers w t := by
  intro call ret bytes source hm
  rw [h,List.mem_append,List.mem_singleton] at hm
  rcases hm with hm|rfl
  · exact .inl hm
  · exact .inr fun hne => absurd (hr _ _ _ _ rfl) hne

/-- A reply from the buffer of a channel that `p` waits on. -/
theorem Awaited.answers {ret : ℤ} {bytes : List UInt8} {source : Option ℕ} (hp : Awaited w p)
    (h : t.log=w.log++[.subscribed call ret bytes source])
    (hbytes : bytes≠[] → w.chan.msglen≠0 ∧ source=w.source) : Answers w t := by
  intro call' ret' bytes' source' hm
  rw [h,List.mem_append,List.mem_singleton] at hm
  rcases hm with hm|hm
  · exact .inl hm
  · cases hm
    refine .inr fun hne => ⟨p,by simp [hp.pubs],?_⟩
    obtain ⟨hlen,hsource⟩ := hbytes hne
    exact hsource.trans (hp.held.resolve_left hlen)

theorem statusOf_value (st : Status) : statusOf st.value=st := by cases st <;> rfl

/-- A notified subscriber reads the status of the channel. -/
theorem Awaited.statusOf_read {count : ℕ} (hp : Awaited w p) (hv : v∈notified w)
    (hr : eventfdRead w.fds v.notifyfd=some count) : statusOf count=w.chan.status := by
  unfold eventfdRead at hr
  rw [hp.told v hv] at hr
  obtain ⟨-,hval⟩ := Option.ite_none_left_eq_some.mp hr
  rw [← Option.some.inj hval,statusOf_value]

/-- A notified subscriber has a publisher or destroyer that waits for it. -/
theorem Settled.awaited (h : Settled w) (hv : v∈notified w) : ∃ p,Awaited w p := by
  rcases h.phase with ⟨-,-,hnone⟩|hp
  · rw [hnone] at hv
    cases hv
  · exact hp

/-- A subscriber is resumed. -/
theorem Settled.subscribeAfterYield (h : Settled w) (hv : v∈w.subs)
    (ht : subscribeAfterYield w v=.ok t) : Settled t ∧ Answers w t := by
  have hne : ¬(w.freed=true ∨ w.chan.sublist=[]) := by
    intro hbad
    unfold PubsubChannel.subscribeAfterYield at ht
    rw [if_pos hbad] at ht
    cases ht
  cases hr : eventfdRead w.fds v.notifyfd with
  | none =>
    rw [subscribeAfterYield_none hne hr] at ht
    cases ht
    refine ⟨(h.leave hv hr).of_same rfl rfl fun _ _ hx => hx,answers_of_bare rfl ?_⟩
    rintro _ _ _ _ ⟨⟩
    rfl
  | some count =>
    have hmem : v∈notified w := List.mem_filter.mpr ⟨hv,Option.isSome_of_eq_some hr⟩
    obtain ⟨p,hp⟩ := h.awaited hmem
    rw [subscribeAfterYield_some hne hr] at ht
    obtain ⟨fds,ret,bytes,source,rfl,hbytes,hsame,hwrite⟩ := subscribeAfterWait_ok ht
    refine ⟨?_,hp.answers rfl hbytes⟩
    obtain ⟨n,hcount,hzero⟩ := hp.counter
    have hcount' : (PubsubChannel.leave w v).fds p.notifyfd=some (.event n) :=
      (fds_leave (hp.apart v hv).symm).trans hcount
    have hack : Settled {PubsubChannel.acknowledge (PubsubChannel.leave w v) with fds := fds} := by
      by_cases hlast : (PubsubChannel.acknowledge (PubsubChannel.leave w v)).chan.ackRem=0
      · have hw : eventfdWrite (PubsubChannel.leave w v).fds w.chan.pubNotifyfd _=some fds :=
          hwrite (if_pos hlast)
        obtain ⟨m,hm⟩ := Keeps.write hw _ _ hcount'
        refine h.acknowledge hp hmem (fun x hx => ?_) ⟨m,hm,fun hne => absurd hlast hne⟩
        exact eventfdWrite_of_ne hw (hp.waits ▸ hx)
      · have hstatus : statusOf count≠.empty := by
          rw [hp.statusOf_read hmem hr]
          exact hp.busy
        have hfds : fds=(PubsubChannel.leave w v).fds := hsame (by rw [if_neg hlast]; exact hstatus)
        refine h.acknowledge hp hmem (fun x _ => by rw [hfds]) ⟨n,hfds ▸ hcount',fun _ => hzero ?_⟩
        rw [h.ackRem]
        exact (List.length_pos_of_mem hmem).ne'
    exact hack.of_same rfl rfl fun _ _ hx => hx

/-- A publisher or destroyer is resumed. -/
theorem Settled.publishAfterYield (h : Settled w) (hp : p∈w.pubs)
    (hr : (eventfdRead w.fds p.notifyfd).isSome) (ht : publishAfterYield w p=.ok t) :
    Sound t ∧ Answers w t := by
  obtain ⟨q,hq⟩ : ∃ q,Awaited w q := by
    rcases h.phase with ⟨-,hnone,-⟩|hq
    · rw [hnone] at hp
      cases hp
    · exact hq
  obtain rfl : p=q := List.mem_singleton.mp (hq.pubs ▸ hp)
  -- It was notified, so that nobody is left to acknowledge.
  have hquiet : notified w=[] := by
    obtain ⟨n,hcount,hzero⟩ := hq.counter
    refine List.eq_nil_of_length_eq_zero ?_
    rw [← h.ackRem]
    by_contra hne
    simp [eventfdRead,hcount,hzero hne] at hr
  have hkept : ¬w.freed=true := by simp [h.kept]
  rw [PubsubChannel.publishAfterYield,if_neg hkept] at ht
  cases hreq : p.request with
  | destroy =>
    rw [hreq] at ht
    cases ht
    have hsubs : w.subs=[] := by
      refine List.eq_nil_iff_forall_not_mem.mpr fun v hv => ?_
      have hmem := (hq.closing hreq).2 v hv
      rw [hquiet] at hmem
      cases hmem
    refine ⟨.inl ⟨rfl,hsubs⟩,answers_of_bare rfl ?_⟩
    rintro _ _ _ _ ⟨⟩
  | publish data targets =>
    rw [hreq] at ht
    cases ht
    have hpubs : w.pubs.filter (fun q => q.call≠p.call)=[] := by simp [hq.pubs]
    have hfds : ∀ v∈w.subs,EventFd.close w.fds w.chan.pubNotifyfd v.notifyfd=w.fds v.notifyfd :=
      fun v hv => Function.update_of_ne (hq.waits ▸ hq.apart v hv) ..
    have hn : notified (afterPubwait {w with
        fds := EventFd.close w.fds w.chan.pubNotifyfd
        pubs := w.pubs.filter fun q => q.call≠p.call} p.call (.publish data targets))=notified w :=
      notified_of_same rfl hfds
    refine ⟨.inr ⟨h.kept,⟨h.roster.sublist,h.roster.subNum,h.roster.distinct,fun v hv => ?_⟩,?_,
      .inl ⟨rfl,hpubs,hn.trans hquiet⟩⟩,answers_of_bare rfl ?_⟩
    · obtain ⟨n,hn⟩ := h.roster.counters v hv
      exact ⟨n,(hfds v hv).trans hn⟩
    · exact h.ackRem.trans (congrArg List.length hn.symm)
    · rintro _ _ _ _ ⟨⟩

/-- Every orderly step keeps the channel sound. -/
theorem Settled.step (h : Settled w) (ho : orderly w a=true) (ha : step w a=some (.ok t)) :
    Sound t ∧ Answers w t := by
  have hn : Settled (numbered w) := h.of_same rfl rfl fun _ _ hx => hx
  have hreply : ∀ r,(∀ call ret bytes source,r=.subscribed call ret bytes source → bytes=[]) →
      Sound (reply (numbered w) r) ∧ Answers w (reply (numbered w) r) := fun r hr =>
    ⟨.inr (hn.of_same rfl rfl fun _ _ hx => hx),answers_of_bare rfl hr⟩
  cases taken_of_step ha with
  | refuseSubscriber =>
    refine hreply _ ?_
    rintro _ _ _ _ ⟨⟩
    rfl
  | copyAtOnce hc hkept hroom hst hnow ht =>
    have htrans : w.chan.status=.trans := by
      refine hst.resolve_left fun hempty => ?_
      simp only [orderly,premature,hc,hkept,hroom,hempty,Bool.not_eq_true'] at ho
      rcases hnow with hnow|hnow <;> simp [hnow] at ho
    obtain ⟨p,hp⟩ : ∃ p,Awaited w p := by
      rcases h.phase with ⟨hempty,-⟩|hp
      · rw [htrans] at hempty
        cases hempty
      · exact hp
    rw [htrans] at ht
    obtain ⟨fds,ret,bytes,source,rfl,hbytes,hsame,-⟩ := subscribeAfterWait_ok ht
    obtain rfl := hsame (by decide)
    exact ⟨.inr (hn.of_same rfl rfl fun _ _ hx => hx),hp.answers rfl hbytes⟩
  | enlist hfd _ hst =>
    have hopen : w.chan.status≠.close := by
      rcases hst with hst|hst <;> rw [hst] <;> decide
    exact ⟨.inr (hn.enlist hfd hopen ..),answers_of_log rfl⟩
  | refusePublisher =>
    refine hreply _ ?_
    rintro _ _ _ _ ⟨⟩
  | @publish c context data fd _ hfd hkept hst hsubs hdata hroom ht =>
    have hinside : context≠.outside := by
      rintro rfl
      simp [orderly,hkept,hst,hsubs,hdata,not_lt.mpr hroom] at ho
    rw [pscPubwait,if_neg hinside] at ht
    cases ht
    refine ⟨.inr ?_,answers_of_log rfl⟩
    exact h.announce (fill (numbered w) w.calls data) (.publish data (targets w)) hst hfd rfl rfl
      rfl rfl rfl rfl (.inl rfl) (.inr rfl) (by rintro ⟨⟩) c
  | destroyAgain =>
    refine hreply _ ?_
    rintro _ _ _ _ ⟨⟩
  | destroyAtOnce _ hsubs =>
    rw [h.roster.subNum,List.length_eq_zero_iff] at hsubs
    refine ⟨.inl ⟨rfl,hsubs⟩,answers_of_bare rfl ?_⟩
    rintro _ _ _ _ ⟨⟩
  | @destroy c context fd _ hfd hkept hsubs ht =>
    obtain ⟨⟨hinside,hst⟩,hlen⟩ : (context≠.outside ∧ w.chan.status=.empty) ∧ w.chan.msglen=0 := by
      simpa [orderly,hkept,hsubs] using ho
    rw [pscPubwait,if_neg hinside] at ht
    cases ht
    refine ⟨.inr ?_,answers_of_log rfl⟩
    exact h.announce {numbered w with chan := {w.chan with status := .close}} .destroy hst hfd rfl
      rfl rfl rfl rfl rfl (.inr rfl) (.inl hlen) (fun _ => rfl) c
  | resumeSubscriber hv _ ht =>
    obtain ⟨hsettled,hanswers⟩ := h.subscribeAfterYield hv ht
    exact ⟨.inr hsettled,hanswers⟩
  | resumePublisher hp ht =>
    refine h.publishAfterYield (List.mem_of_find?_eq_some hp) ?_ ht
    simpa only [orderly,genuine,hp,Option.all_some] using ho
  | elsewhere _ hf => exact ⟨.inr (h.of_same rfl rfl hf),answers_of_log rfl⟩

/-- A freed channel stays so. -/
theorem sound_of_freed (hfreed : w.freed=true) (hsubs : w.subs=[]) (ha : step w a=some (.ok t)) :
    Sound t ∧ Answers w t := by
  cases taken_of_step ha with
  | refuseSubscriber =>
    refine ⟨.inl ⟨hfreed,hsubs⟩,answers_of_bare rfl ?_⟩
    rintro _ _ _ _ ⟨⟩
    rfl
  | refusePublisher => exact ⟨.inl ⟨hfreed,hsubs⟩,answers_of_bare rfl nofun⟩
  | destroyAgain => exact ⟨.inl ⟨hfreed,hsubs⟩,answers_of_bare rfl nofun⟩
  | elsewhere => exact ⟨.inl ⟨hfreed,hsubs⟩,answers_of_log rfl⟩
  | copyAtOnce _ hkept => simp [hkept] at hfreed
  | enlist _ hkept => simp [hkept] at hfreed
  | publish _ hkept => simp [hkept] at hfreed
  | destroyAtOnce hkept => simp [hkept] at hfreed
  | destroy _ hkept => simp [hkept] at hfreed
  | resumeSubscriber hv =>
    rw [hsubs] at hv
    cases hv
  | resumePublisher _ ht =>
    rw [PubsubChannel.publishAfterYield,if_pos hfreed] at ht
    cases ht

theorem Sound.step (h : Sound w) (ho : orderly w a=true) (ha : step w a=some (.ok t)) :
    Sound t ∧ Answers w t := by
  rcases h with ⟨hfreed,hsubs⟩|h
  · exact sound_of_freed hfreed hsubs ha
  · exact h.step ho ha

theorem sound_newChannel (size : ℕ) : Sound (newChannel size) :=
  .inr ⟨rfl,⟨rfl,rfl,List.nodup_nil,fun _ hv => (nomatch hv)⟩,rfl,.inl ⟨rfl,rfl,rfl⟩⟩

/-! ## Call numbers -/

/-- The number of the call. -/
def number : Reply → ℕ
  | .published call _ _ _ => call
  | .subscribed call _ _ _ => call
  | .destroyed call => call

/-- Calls were made that are blocked or have returned, and a blocked publish call has not
returned. -/
structure Recorded (w : World) : Prop where
  subs : ∀ v∈w.subs,v.call<w.calls
  pubs : ∀ p∈w.pubs,p.call<w.calls
  log : ∀ r∈w.log,number r<w.calls
  pending : ∀ p∈w.pubs,∀ data targets ret,.published p.call data targets ret∉w.log

/-- Calls that are blocked or have returned in a step were so before, or are the one that
is made in it. -/
theorem Recorded.of_step (h : Recorded w) (hcalls : w.calls ≤ t.calls)
    (hsubs : ∀ v∈t.subs,v∈w.subs ∨ v.call=w.calls ∧ w.calls<t.calls)
    (hpubs : ∀ p∈t.pubs,p∈w.pubs ∨ p.call=w.calls ∧ w.calls<t.calls)
    (hlog : ∀ r∈t.log,r∈w.log ∨ number r<t.calls ∧
      ∀ p∈t.pubs,∀ data targets ret,r≠.published p.call data targets ret) : Recorded t := by
  refine ⟨fun v hv => ?_,fun p hp => ?_,fun r hr => ?_,fun p hp data targets ret hr => ?_⟩
  · rcases hsubs v hv with hv|⟨hv,hlt⟩
    · exact (h.subs v hv).trans_le hcalls
    · omega
  · rcases hpubs p hp with hp|⟨hp,hlt⟩
    · exact (h.pubs p hp).trans_le hcalls
    · omega
  · rcases hlog r hr with hr|⟨hlt,-⟩
    · exact (h.log r hr).trans_le hcalls
    · exact hlt
  · rcases hlog _ hr with hr|⟨-,hno⟩
    · rcases hpubs p hp with hp|⟨hp,-⟩
      · exact h.pending p hp data targets ret hr
      · have hlt : p.call<w.calls := h.log _ hr
        omega
    · exact hno p hp data targets ret rfl

/-- A call returns. -/
theorem Recorded.returns (h : Recorded w) (hcalls : w.calls ≤ t.calls)
    (hsubs : ∀ v∈t.subs,v∈w.subs) (hpubs : ∀ p∈t.pubs,p∈w.pubs) (hlog : t.log=w.log++[r])
    (hr : number r<t.calls)
    (hno : ∀ p∈t.pubs,∀ data targets ret,r≠.published p.call data targets ret) : Recorded t := by
  refine h.of_step hcalls (fun v hv => .inl (hsubs v hv)) (fun p hp => .inl (hpubs p hp))
    fun r' hr' => ?_
  rw [hlog,List.mem_append,List.mem_singleton] at hr'
  rcases hr' with hr'|rfl
  · exact .inl hr'
  · exact .inr ⟨hr,hno⟩

/-- A publish or destroy call blocks or returns. -/
theorem Recorded.pubwait {context : Context} (h : Recorded w)
    (ht : pscPubwait u w.calls c context fd request=.ok t) (hcalls : u.calls=w.calls+1)
    (hsubs : u.subs=w.subs) (hpubs : u.pubs=w.pubs) (hlog : u.log=w.log) : Recorded t := by
  unfold pscPubwait at ht
  have hlt : w.calls<u.calls := hcalls ▸ Nat.lt_succ_self _
  split_ifs at ht
  · cases ht
    cases request with
    | destroy =>
      exact h.returns hlt.le (fun v hv => hsubs ▸ hv) (fun p hp => hpubs ▸ hp)
        (congrArg (·++_) hlog) hlt nofun
    | publish data targets =>
      refine h.returns hlt.le (fun v hv => hsubs ▸ hv) (fun p hp => hpubs ▸ hp)
        (congrArg (·++_) hlog) hlt fun p hp data targets ret he => ?_
      have hcall := h.pubs p (hpubs ▸ hp)
      have hsame : w.calls=p.call := congrArg number he
      omega
  · cases ht
    refine h.of_step hlt.le (fun v hv => .inl (hsubs ▸ hv)) (fun p hp => ?_)
      fun r hr => .inl (hlog ▸ hr)
    rcases List.mem_cons.mp hp with rfl|hp
    · exact .inr ⟨rfl,hlt⟩
    · exact .inl (hpubs ▸ hp)

/-- Every step keeps the numbers. -/
theorem Recorded.step (h : Recorded w) (ha : step w a=some (.ok t)) : Recorded t := by
  have hle : w.calls ≤ (numbered w).calls := Nat.le_succ _
  have hlt : w.calls<(numbered w).calls := Nat.lt_succ_self _
  cases taken_of_step ha with
  | refuseSubscriber => exact h.returns hle (fun _ hv => hv) (fun _ hp => hp) rfl hlt nofun
  | copyAtOnce _ _ _ _ _ ht =>
    obtain ⟨fds,ret,bytes,source,rfl,-⟩ := subscribeAfterWait_ok ht
    exact h.returns hle (fun _ hv => hv) (fun _ hp => hp) rfl hlt nofun
  | enlist =>
    refine h.of_step hle (fun v hv => ?_) (fun _ hp => .inl hp) fun _ hr => .inl hr
    rcases List.mem_cons.mp hv with rfl|hv
    · exact .inr ⟨rfl,hlt⟩
    · exact .inl hv
  | refusePublisher =>
    refine h.returns hle (fun _ hv => hv) (fun _ hp => hp) rfl hlt fun p hp data targets ret he => ?_
    have hcall := h.pubs p hp
    have hsame : w.calls=p.call := congrArg number he
    omega
  | publish _ _ _ _ _ _ ht => exact h.pubwait ht rfl rfl rfl rfl
  | destroyAgain => exact h.returns hle (fun _ hv => hv) (fun _ hp => hp) rfl hlt nofun
  | destroyAtOnce => exact h.returns hle (fun _ hv => hv) (fun _ hp => hp) rfl hlt nofun
  | destroy _ _ _ ht => exact h.pubwait ht rfl rfl rfl rfl
  | @resumeSubscriber _ v _ hv _ ht =>
    unfold subscribeAfterYield at ht
    split_ifs at ht
    split at ht
    · obtain ⟨fds,ret,bytes,source,rfl,-⟩ := subscribeAfterWait_ok ht
      exact h.returns le_rfl (fun u hu => (mem_leave hu).1) (fun _ hp => hp) rfl (h.subs v hv) nofun
    · obtain ⟨fds,ret,bytes,source,rfl,-⟩ := subscribeAfterWait_ok ht
      exact h.returns le_rfl (fun u hu => (mem_leave hu).1) (fun _ hp => hp) rfl (h.subs v hv) nofun
  | @resumePublisher _ p _ hfind ht =>
    have hp := List.mem_of_find?_eq_some hfind
    rw [publishAfterYield] at ht
    split_ifs at ht
    cases ht
    have hpubs : ∀ q∈w.pubs.filter (fun q => q.call≠p.call),q∈w.pubs ∧ q.call≠p.call := by
      intro q hq
      obtain ⟨hq,hne⟩ := List.mem_filter.mp hq
      exact ⟨hq,by simpa using hne⟩
    cases p.request with
    | destroy =>
      exact h.returns le_rfl (fun _ hv => hv) (fun q hq => (hpubs q hq).1) rfl (h.pubs p hp) nofun
    | publish data targets =>
      refine h.returns le_rfl (fun _ hv => hv) (fun q hq => (hpubs q hq).1) rfl (h.pubs p hp)
        fun q hq data targets ret he => ?_
      exact (hpubs q hq).2 (congrArg number he).symm
  | elsewhere => exact h.of_step le_rfl (fun _ hv => .inl hv) (fun _ hp => .inl hp) fun _ hr => .inl hr

/-! ## Whole runs -/

/-- Messages stay fresh in an orderly step. -/
theorem Fresh.step (h : Fresh w₀ w) (hlog : w₀.log<+:w.log) (hr : Recorded w)
    (ha : Answers w t) : Fresh w₀ t := by
  intro call ret bytes source hm hcall hne
  rcases ha call ret bytes source hm with hm|hnew
  · exact h call ret bytes source hm hcall hne
  · obtain ⟨p,hp,hsource⟩ := hnew hne
    exact ⟨p.call,hsource,fun data targets ret hdone =>
      hr.pending p hp data targets ret (hlog.subset hdone)⟩

/-- A resumed subscriber that was told to be the last one. -/
theorem Settled.due_of_last {count : ℕ} (h : Settled w) (hv : v∈w.subs)
    (hr : eventfdRead w.fds v.notifyfd=some count)
    (hst : (if (PubsubChannel.acknowledge (PubsubChannel.leave w v)).chan.ackRem=0 then .empty
      else statusOf count)=Status.empty) :
    Due w (.resumeSubscriber v.co) (PubsubChannel.acknowledge (PubsubChannel.leave w v)) := by
  have hmem : v∈notified w := List.mem_filter.mpr ⟨hv,Option.isSome_of_eq_some hr⟩
  obtain ⟨p,hp⟩ := h.awaited hmem
  have hlast : sizePred w.chan.ackRem=0 := by
    by_contra hlast
    have hbusy : statusOf count=.empty := (if_neg hlast).symm.trans hst
    rw [hp.statusOf_read hmem hr] at hbusy
    exact hp.busy hbusy
  have hlen := (notified_perm h.roster.distinct hmem).length_eq
  refine ⟨⟨v,hv,rfl,Option.isSome_of_eq_some hr⟩,?_,p,?_,hp.waits,?_⟩
  · show notified (PubsubChannel.leave w v)=[]
    rw [h.ackRem,hlen] at hlast
    exact List.eq_nil_of_length_eq_zero hlast
  · show p∈w.pubs
    simp [hp.pubs]
  · obtain ⟨n,hcount,hzero⟩ := hp.counter
    obtain rfl : n=0 := hzero (by rw [h.ackRem,hlen]; exact Nat.succ_ne_zero _)
    exact (fds_leave (hp.apart v hv).symm).trans hcount

/-- A subscribe call that gets PSC_STATUS_EMPTY in a sound state. -/
theorem Sound.due (h : Sound w) (ha : premature w a=false)
    (hw : afterSubwait w a=some (u,call,.empty)) : Due w a u := by
  cases a with
  | subscribe c context maxsize timeout fd =>
    obtain ⟨⟨hc,hok,-,hnow⟩,hw⟩ := Option.ite_none_right_eq_some.mp hw
    simp only [Option.some.injEq,Prod.mk.injEq] at hw
    obtain ⟨hkept,hroom⟩ := not_or.mp hok
    simp only [premature,hc,hkept,hroom,hw.2.2] at ha
    rcases hnow with hnow|hnow <;> simp [hnow] at ha
  | resumeSubscriber c =>
    simp only [afterSubwait] at hw
    split at hw
    · cases hw
    next v hv =>
      obtain ⟨-,hw⟩ := Option.ite_none_right_eq_some.mp hw
      have hmem := List.mem_of_find?_eq_some hv
      obtain rfl : v.co=c := by simpa using List.find?_some hv
      split at hw
      · cases hw
      next count hr =>
        simp only [Option.some.injEq,Prod.mk.injEq] at hw
        obtain ⟨rfl,-,hst⟩ := hw
        rcases h with ⟨-,hsubs⟩|h
        · rw [hsubs] at hmem
          cases hmem
        · exact h.due_of_last hmem hr hst
  | publish => cases hw
  | destroy => cases hw
  | resumePublisher => cases hw
  | openOther => cases hw
  | closeOther => cases hw

/-- A subscribe call that does not wait is not due. -/
theorem not_due_of_premature (ha : premature w a=true) :
    afterSubwait w a=some (numbered w,w.calls,.empty) ∧ ¬Due w a (numbered w) := by
  cases a with
  | subscribe c context maxsize timeout fd =>
    simp only [premature,Bool.and_eq_true,Bool.or_eq_true,Bool.not_eq_true',decide_eq_true_eq,
      decide_eq_false_iff_not] at ha
    obtain ⟨⟨⟨⟨hc,hkept⟩,hroom⟩,hempty⟩,hnow⟩ := ha
    constructor
    · rw [afterSubwait,if_pos ⟨hc,by simp [hkept,hroom],.inl hempty,hnow⟩,hempty]
    · rintro ⟨⟨v,-,hact,-⟩,-⟩
      cases hact
  | publish => cases ha
  | destroy => cases ha
  | resumeSubscriber => cases ha
  | resumePublisher => cases ha
  | openOther => cases ha
  | closeOther => cases ha

/-- In every run of orderly steps: a subscribe call executes `psc_pubnotify` only when a
publisher or destroyer is blocked and all subscribers that it has notified have just
acknowledged, unless the call does not wait while nothing is being published; and no
subscribe call has returned bytes of a message whose publish call had returned before, or
which nobody has published. -/
theorem pubnotify_due_iff {size : ℕ} (h₀ : Reachable size (fun w a => orderly w a=true) w₀)
    (h : Runs step (fun w a => orderly w a=true) w₀ w) :
    (∀ a,(∀ u call,afterSubwait w a=some (u,call,.empty) → Due w a u) ↔ premature w a=false) ∧
    Fresh w₀ w := by
  have hstart : Sound w₀ ∧ Recorded w₀ := by
    refine h₀.invariant (fun w => Sound w ∧ Recorded w) ⟨sound_newChannel size,?_⟩
      fun w a t hi ho ha => ⟨(hi.1.step ho ha).1,hi.2.step ha⟩
    exact ⟨nofun,nofun,nofun,nofun⟩
  have hrun : (Sound w ∧ Recorded w) ∧ w₀.log<+:w.log ∧ Fresh w₀ w := by
    refine h.invariant (fun w => (Sound w ∧ Recorded w) ∧ w₀.log<+:w.log ∧ Fresh w₀ w)
      ⟨hstart,List.prefix_rfl,?_⟩ ?_
    · intro call ret bytes source hm hcall
      exact absurd (hstart.2.log _ hm) (not_lt.mpr hcall)
    · rintro w a t ⟨⟨hs,hr⟩,hlog,hf⟩ ho ha
      obtain ⟨hs',hanswers⟩ := hs.step ho ha
      exact ⟨⟨hs',hr.step ha⟩,hlog.trans (PubsubClose.log_step ha),hf.step hlog hr hanswers⟩
  refine ⟨fun a => ⟨fun hdue => ?_,fun ha u call hw => hrun.1.1.due ha hw⟩,hrun.2.2⟩
  refine Bool.eq_false_iff.mpr fun ha => ?_
  obtain ⟨hw,hno⟩ := not_due_of_premature ha
  exact hno (hdue _ _ hw)

/-- A message is delivered to subscriber 0. -/
def delivered : List Act :=
  [.subscribe 0 .symmetric 256 (-1) 5,.publish 1 .symmetric [104,105] 6,.resumeSubscriber 0,
    .resumePublisher 1]

/-- A second message is published to subscriber 2, and subscriber 3 blocks later. -/
def published : List Act :=
  [.subscribe 2 .symmetric 256 (-1) 5,.publish 1 .symmetric [106] 6,
    .subscribe 3 .symmetric 256 (-1) 7]

/-- Subscriber 2 is the last one to acknowledge. -/
theorem pubnotify_due_iff_secondMessage : ∃ w₀ w u call,
    Reachable 256 (fun w a => orderly w a=true) w₀ ∧
      Runs step (fun w a => orderly w a=true) w₀ w ∧
      afterSubwait w (.resumeSubscriber 2)=some (u,call,.empty) ∧ Due w (.resumeSubscriber 2) u ∧
      Fresh w₀ w := by
  have h : ((replayWhile step (fun w a => orderly w a=true) (newChannel 256) delivered).bind
      fun w₀ => (replayWhile step (fun w a => orderly w a=true) w₀ published).bind fun w =>
        (afterSubwait w (.resumeSubscriber 2)).map fun r => r.2)=some (2,.empty) := by
    decide +kernel
  obtain ⟨w₀,hw₀,h⟩ := Option.bind_eq_some_iff.mp h
  obtain ⟨w,hw,h⟩ := Option.bind_eq_some_iff.mp h
  obtain ⟨⟨u,r⟩,hu,rfl⟩ := Option.map_eq_some_iff.mp h
  have hw₀ := runs_of_replayWhile hw₀
  have hw := runs_of_replayWhile hw
  obtain ⟨hdue,hfresh⟩ := pubnotify_due_iff hw₀ hw
  exact ⟨w₀,w,u,2,hw₀,hw,hu,(hdue (.resumeSubscriber 2)).mpr rfl u 2 hu,hfresh⟩

/-- After the message was delivered the number of its `pub_notifyfd` is in use again. A
subscribe call that does not wait writes to it and returns the message, though nobody is
blocked and the publish call has returned. On a new channel such a call ends the
program. -/
theorem old_message_returned : (∃ w t,Reachable 256 (fun _ _ => True) w ∧ w.pubs=[] ∧
    afterSubwait w (.subscribe 2 .symmetric 256 0 7)=some (numbered w,w.calls,.empty) ∧
      ¬Due w (.subscribe 2 .symmetric 256 0 7) (numbered w) ∧
      step w (.subscribe 2 .symmetric 256 0 7)=some (.ok t) ∧
      .published 1 [104,105] [0] 2∈w.log ∧
      .subscribed w.calls 2 [104,105] (some 1)∈t.log ∧ ¬Fresh w t) ∧
    step (newChannel 256) (.subscribe 0 .outside 256 (-1) 5)=some (.error .must) := by
  constructor
  · have h : ((replay step (newChannel 256) (delivered++[.openOther 6])).bind fun w =>
        (replay step w [.subscribe 2 .symmetric 256 0 7]).map fun t =>
          (premature w (.subscribe 2 .symmetric 256 0 7),w.pubs.length,
            decide (.published 1 [104,105] [0] 2∈w.log),
            decide (.subscribed w.calls 2 [104,105] (some 1)∈t.log)))=some (true,0,true,true) := by
      decide +kernel
    obtain ⟨w,hw,h⟩ := Option.bind_eq_some_iff.mp h
    obtain ⟨t,ht,hq⟩ := Option.map_eq_some_iff.mp h
    simp only [Prod.mk.injEq,decide_eq_true_eq,List.length_eq_zero_iff] at hq
    obtain ⟨hpremature,hpubs,hpublished,hreturned⟩ := hq
    obtain ⟨hwait,hno⟩ := not_due_of_premature hpremature
    refine ⟨w,t,runs_of_replay hw,hpubs,hwait,hno,step_of_replay ht,hpublished,hreturned,?_⟩
    intro hf
    obtain ⟨k,hk,hnever⟩ := hf _ _ _ _ hreturned le_rfl (by decide)
    cases hk
    exact hnever _ _ _ hpublished
  · have hnone : copyMessage 0 (List.replicate 256 0)=.ok (0,[]) := by
      rw [copyMessage,toInt_of_lt (by decide)]
      rfl
    show some (copyMessage 0 (List.replicate 256 0)>>=_)=_
    rw [hnone]
    rfl

end DycoCoroutine.PubsubNotify
