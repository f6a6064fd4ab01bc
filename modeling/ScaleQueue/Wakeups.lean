import ScaleQueue.Deliveries
import ScaleQueue.Acks

/-!
# No wake-up is lost

What is published for an outbox row is a message for a row that fits its job, and
keeps fitting wherever the message goes (`Circulating`): in the stream, pending
in the group, or in the hands of a worker, delivered once or many times. So a
message for the next attempt of a pending job is not early when it is claimed,
and the outbox keeps the row until the job is over or in its next generation.
-/

namespace ScaleQueue

open Locking

/-- The messages that were published for the job `id`, and what is known of those
    that a worker has got hold of. -/
structure Circulating (id : JobId) (es : List Event) (s : State) : Prop where
  stream : s.stream.Sound
  has : ∀ w x e, s.workers w = some x → x.Has e → e.id < s.stream.nextId
  posted : ∀ o e, .published o e ∈ es → o.place.jobId = id → e.id < s.stream.nextId ∧
    e.values = encode o.place ∧ o.availableAt ≤ s.mysql.clock ∧
    ∃ r, s.mysql.store.job? id = some r ∧ Fits o.place o.availableAt r
  claiming : ∀ w x h sid y o, s.workers w = some x → x.phase = .claiming h sid →
    s.mysql.sessions sid = some y → .published o h.entry ∈ es → o.place.jobId = id →
    o.availableAt ≤ y.began

section Steps

variable {cfg : Config} {s s' : State} {w : WorkerId} {x x' : Worker} {sid : Sid} {id : JobId}

theorem Stepped.stream {a : Action} {es : List Event} (h : Stepped cfg s a s' es)
    (hs : s.stream.Sound) : s'.stream.Sound ∧ s.stream.nextId ≤ s'.stream.nextId := by
  cases h with
  | close _ hd =>
    rw [hd.stream]
    exact ⟨hs, le_rfl⟩
  | giveUp _ hd =>
    rw [hd.stream]
    exact ⟨hs, le_rfl⟩
  | publish => exact ⟨hs.xadd _, Nat.le_succ _⟩
  | startWorker =>
    exact ⟨hs.xgroupCreateMkStream, Nat.le_of_eq Redis.xgroupCreateMkStream_nextId.symm⟩
  | @worker w _ _ x' fx _ _ hx =>
    rw [show ((s.affect cfg fx).setWorker w x').stream = fx.stream.getD s.stream from rfl]
    cases act_served hx with
    | nothing hnone => exact hnone ▸ ⟨hs, le_rfl⟩
    | recovered hclaim hkey =>
      exact hkey ▸ ⟨hs.xautoclaim hclaim, Nat.le_of_eq (Redis.xautoclaim_nextId hclaim).symm⟩
    | read hread hkey =>
      exact hkey ▸ ⟨hs.xreadgroup hread, Nat.le_of_eq (Redis.xreadgroup_nextId hread).symm⟩
    | acked _ hkey => exact hkey ▸ ⟨hs.xack _, Nat.le_of_eq Redis.xack_nextId.symm⟩
  | inject => exact ⟨hs.xadd _, Nat.le_succ _⟩
  | dropStream => exact ⟨hs.del, le_rfl⟩
  | _ => exact ⟨hs, le_rfl⟩

theorem Told.has {a : Option Answer} {fx : Effects} (hx : x.returned w sid a = some (x', fx))
    {e : Redis.Entry Message} (he : x'.Has e) : x.Has e := by
  obtain ⟨-, -, -, -, p, rfl⟩ := returned_effects hx
  refine he.of_eq rfl fun h hh => ?_
  obtain ⟨h', hold, hsame, -⟩ := (returned_cases hx).handle
  exact ⟨h', hold, by rw [hsame h hh]⟩

theorem Delivered.has {b : Option Answer} {es : List Event} (h : Delivered cfg s sid b s' es)
    (hw : s'.workers w = some x') {e : Redis.Entry Message} (he : x'.Has e) :
    ∃ x, s.workers w = some x ∧ x.Has e := by
  cases h with
  | nobody => exact ⟨x', hw, he⟩
  | @worker w' x y fx _ hw' hx =>
    by_cases hww : w = w'
    · subst hww
      obtain rfl : y = x' := by simpa [State.setWorker] using hw
      exact ⟨x, hw', Told.has hx he⟩
    · exact ⟨x', by simpa [State.setWorker, hww] using hw, he⟩
  | dispatcher => exact ⟨x', hw, he⟩
  | call => exact ⟨x', hw, he⟩

/-- A worker gets hold of nothing but entries of the stream. -/
theorem Stepped.has {a : Action} {es : List Event} (h : Stepped cfg s a s' es)
    (hw : s'.workers w = some x') {e : Redis.Entry Message} (he : x'.Has e) :
    (∃ x, s.workers w = some x ∧ x.Has e) ∨ s.stream.Holds e := by
  cases h with
  | close _ hd => exact .inl (hd.has hw he)
  | giveUp _ hd => exact .inl (hd.has hw he)
  | @startWorker w' =>
    by_cases hww : w = w'
    · subst hww
      obtain rfl : .start s.mysql.clock = x' := by simpa [State.setWorker] using hw
      rcases he with ⟨batch, hb, -⟩ | ⟨h, hh, -⟩
      · cases hb
      · cases hh
    · exact .inl ⟨x', by simpa [State.setWorker, hww] using hw, he⟩
  | @worker w' _ x y _ hw' _ hx =>
    by_cases hww : w = w'
    · subst hww
      obtain rfl : y = x' := by simpa [State.setWorker] using hw
      exact (act_has hx he).imp_left fun h => ⟨x, hw', h⟩
    · exact .inl ⟨x', by simpa [State.setWorker, hww] using hw, he⟩
  | _ => exact .inl ⟨x', hw, he⟩

/-- Entries are added to the stream by what is published, and by nothing else that
    the system does. -/
theorem Stepped.holds {a : Action} {es : List Event} (h : Stepped cfg s a s' es)
    {e : Redis.Entry Message} (he : s'.stream.Holds e) :
    s.stream.Holds e ∨ (∃ o, .published o e ∈ es) ∨ a = .inject e.values := by
  cases h with
  | close _ hd => exact .inl (hd.stream ▸ he)
  | giveUp _ hd => exact .inl (hd.stream ▸ he)
  | publish =>
    refine (Redis.holds_xadd he).imp_right ?_
    rintro rfl
    exact .inl ⟨_, List.mem_singleton_self _⟩
  | startWorker => exact .inl (Redis.holds_xgroupCreateMkStream he)
  | @worker w _ _ x' fx _ _ hx =>
    rw [show ((s.affect cfg fx).setWorker w x').stream = fx.stream.getD s.stream from rfl] at he
    cases act_served hx with
    | nothing hnone => exact .inl (by simpa [hnone] using he)
    | recovered hclaim hkey =>
      exact .inl ((Redis.xautoclaim_holds hclaim).2 e (by simpa [hkey] using he))
    | read hread hkey => exact .inl ((Redis.xreadgroup_holds hread).2 e (by simpa [hkey] using he))
    | acked _ hkey => exact .inl (Redis.holds_xack (by simpa [hkey] using he))
  | inject =>
    refine (Redis.holds_xadd he).imp_right ?_
    rintro rfl
    exact .inr rfl
  | dropStream =>
    obtain ⟨_, hs, _⟩ := he
    cases hs
  | _ => exact .inl he

/-- What is published is a row of the outbox, as the next entry of the stream. -/
theorem Stepped.published {a : Action} {es : List Event} (h : Stepped cfg s a s' es)
    {o : OutboxRow} {e : Redis.Entry Message} (hmem : .published o e ∈ es) :
    (∃ sid, s.mysql.waiting sid = some o) ∧ e = ⟨s.stream.nextId, encode o.place⟩ ∧
      s'.stream.nextId = s.stream.nextId + 1 ∧ s'.workers = s.workers := by
  have delivered {t : State} {sid : Sid} {b : Option Answer} {es : List Event}
      (hd : Delivered cfg t sid b s' es) : .published o e ∉ es := by
    intro hmem
    cases hd with
    | nobody => simp at hmem
    | worker _ _ hx => simpa [Event.worker?] using (returned_cases hx).worker _ hmem
    | dispatcher => simp at hmem
    | call _ _ _ hp => simpa using proceed_responds hp _ hmem
  cases h with
  | close _ hd => exact absurd (by simpa using hmem) (delivered hd)
  | giveUp _ hd => exact absurd hmem (delivered hd)
  | publish ho =>
    obtain ⟨rfl, rfl⟩ : o = _ ∧ e = _ := by simpa using hmem
    exact ⟨⟨_, ho⟩, rfl, rfl, rfl⟩
  | worker _ _ hx => simpa [Event.worker?] using (act_cases hx).worker _ hmem
  | _ => simp at hmem

theorem Turn.claiming {a : Action} {es : List Event} (h : Turn cfg s w x' a s' es) {hd : Handle}
    (hx : x'.phase = .claiming hd sid) :
    (∃ x hd', s.workers w = some x ∧ x.phase = .claiming hd' sid ∧ hd'.entry = hd.entry) ∨
      sid = ⟨.worker w, s.opened⟩ := by
  cases h with
  | idle hw => exact .inl ⟨x', hd, hw, hx, rfl⟩
  | started _ hx' =>
    subst hx'
    cases hx
  | @acted x fx _ hw hx' =>
    cases hx' with
    | same hp => exact .inl ⟨x, hd, hw, hp ▸ hx, rfl⟩
    | delivered _ _ hp =>
      rw [hp] at hx
      obtain ⟨-, rfl⟩ := Phase.claiming.inj hx
      exact .inr rfl
    | @abandoned h' hh hp =>
      cases hphase : x.phase with
      | claiming k sid' =>
        rw [hp, hphase] at hx
        obtain ⟨rfl, rfl⟩ := Phase.claiming.inj hx
        exact .inl ⟨x, k, hw, hphase, rfl⟩
      | _ => simp [hp, hphase, Phase.cancel] at hx
    | _ => simp_all
  | told _ _ hx' => cases hx' <;> simp_all
  | lost _ hx' => cases hx' <;> simp_all

theorem Circulating.step {es es' : List Event} {a : Action} (h : Circulating id es s)
    (hk : Kept cfg s.mysql) (hp : Paired none s) (hs : Stepped cfg s a s' es')
    (hfits : ∀ r ∈ s.mysql.store.job? id, ∀ o ∈ s.mysql.store.outboxOf id,
      Fits o.place o.availableAt r) : Circulating id (es ++ es') s' := by
  obtain ⟨hsound, hle⟩ := hs.stream h.stream
  have hclock : s.mysql.clock ≤ s'.mysql.clock := hs.steps.clock_le
  -- What fits keeps fitting.
  have keep {p : Place} {due : ℕ} {r : JobRow} (hr : s.mysql.store.job? id = some r)
      (hf : Fits p due r) : ∃ r', s'.mysql.store.job? id = some r' ∧ Fits p due r' := by
    rcases hs.view hk id with ⟨hsame, -⟩ | ⟨_, _, _, _, _, _, _, -, -, hchange, -⟩
    · exact ⟨r, (congrArg JobView.row hsame).trans hr, hf⟩
    · exact hchange.fits hr hf
  refine ⟨hsound, fun w x e hw he => ?_, fun o e hmem hid => ?_, ?_⟩
  · refine Nat.lt_of_lt_of_le ?_ hle
    rcases hs.has hw he with ⟨x, hw, he⟩ | he
    · exact h.has w x e hw he
    · exact h.stream.holds_lt e he
  · rcases List.mem_append.1 hmem with hmem | hmem
    · obtain ⟨hlt, hval, hdue, r, hr, hf⟩ := h.posted o e hmem hid
      exact ⟨Nat.lt_of_lt_of_le hlt hle, hval, Nat.le_trans hdue hclock, keep hr hf⟩
    · obtain ⟨⟨sid, ho⟩, rfl, hnext, -⟩ := hs.published hmem
      obtain ⟨hout, hdue⟩ := hk.publishing ho
      rw [hid] at hout
      refine ⟨hnext ▸ Nat.lt_succ_self _, rfl, Nat.le_trans hdue hclock, ?_⟩
      cases hrow : s.mysql.store.job? id with
      | none =>
        have := ((hk.sound id).absent hrow).2
        simp [this] at hout
      | some r => exact keep hrow (hfits r hrow o hout)
  · intro w x' hd sid y o hw hphase hy hmem hid
    rcases List.mem_append.1 hmem with hmem | hmem
    · have old {y' : Conn} (hy' : s.mysql.sessions sid = some y') (hb : y.began = y'.began) :
          o.availableAt ≤ y.began := by
        rcases (hs.turn hw).claiming hphase with ⟨x, hd', hw, hphase, heq⟩ | rfl
        · exact hb ▸ h.claiming w x hd' sid y' o hw hphase hy' (heq ▸ hmem) hid
        · exact absurd (hp.number _ y' hy') (lt_irrefl _)
      cases hs.continues hp hy with
      | stays hy' _ hb => exact old hy' hb
      | runs _ hy' _ hb => exact old hy' hb
      | answered hy' _ hb => exact old hy' hb
      | opened _ hb => exact hb ▸ (h.posted o _ hmem hid).2.2.1
    · -- What has just been published is not in anybody's hands yet.
      obtain ⟨-, heq, -, hws⟩ := hs.published hmem
      have := h.has w x' hd.entry (hws ▸ hw) (.inr ⟨hd, by rw [hphase]; rfl, rfl⟩)
      rw [heq] at this
      exact absurd this (lt_irrefl _)

/-- In every run, what is published for a job that is created in it, or carried at
    first, fits the job wherever it is. -/
theorem Run.circulating {s₀ : State} {es : List Event} (h : Run cfg s₀ es s) (h₀ : Initial s₀)
    (hcov : ∀ r ∈ s₀.mysql.store.job? id,
      Covered [] r (s₀.mysql.store.outboxOf id) s₀.mysql.clock) : Circulating id es s := by
  induction h with
  | refl => exact ⟨h₀.stream, by simp [h₀.workers], by simp, by simp [h₀.workers]⟩
  | step h hs ih =>
    refine ih.step (h.kept h₀) (h.paired h₀) (step_cases hs) fun r hr => ?_
    exact ((h.life h₀ id).covered (h₀.sound id) hcov r hr).fits

/-- The delivery of a row for the next attempt is not early. -/
theorem Run.not_early {s₀ : State} {es : List Event} (h : Run cfg s₀ es s) (h₀ : Initial s₀)
    (hcov : ∀ r ∈ s₀.mysql.store.job? id,
      Covered [] r (s₀.mysql.store.outboxOf id) s₀.mysql.clock)
    {r : JobRow} (hr : s.mysql.store.job? id = some r) (hst : r.status = .pending) {hd : Handle}
    {o : OutboxRow} (hw : s.workers w = some x) (hphase : x.phase = .claiming hd sid)
    (hmem : .published o hd.entry ∈ es) (ho : o.place = ⟨id, r.generation, r.attemptCount + 1⟩)
    {how : Closing} {db : MySQL} {op : Op} :
    s.mysql.close sid how ≠ some (db, .aborted op (.noJob .early)) := by
  intro hc
  have hk := h.kept h₀
  have hcirc := h.circulating h₀ hcov
  obtain ⟨-, hval, -, r', hr', hf⟩ := hcirc.posted o hd.entry hmem (by rw [ho])
  obtain rfl := Option.some.inj (hr.symm.trans hr')
  -- The message says for which job and generation it is.
  have hdec := ((h.handling h₀).held w x hd hw (by rw [hphase]; rfl)).2.1
  have hle := (hk.sound id).le_maxInt r hr
  have hone := (hk.sound id).one_le r hr
  have hlt : r.generation < 2 ^ 63 := Nat.lt_of_le_of_lt hle (by decide)
  rw [hval, decode_encode (by rw [ho]; exact hone) (by rw [ho]; exact hlt), ho] at hdec
  obtain ⟨hid, -⟩ := Prod.mk.inj (Option.some.inj hdec)
  obtain ⟨-, y, hi, hy, rfl, hwhy, -⟩ := hk.abort hc
  obtain ⟨z, hz, x', hw', hwait⟩ := ((h.paired h₀).waited (.worker w) sid
    (.claim hd.jobId hd.generation w) ⟨x, hw, hphase ▸ .claim⟩).resolve_left (by simp)
  obtain rfl := Option.some.inj (hy.symm.trans hz)
  obtain rfl := Option.some.inj (hw.symm.trans hw')
  have hbegan := hcirc.claiming w x hd sid y o hw hphase hy hmem (by rw [ho])
  rw [hphase] at hwait
  generalize y.op = op at hwait hwhy
  cases hwait
  cases hwhy with
  | early hrow _ _ _ hearly hlo =>
    rw [← hid] at hrow
    obtain rfl := Option.some.inj (hr.symm.trans hrow)
    have hdue : r.nextAttemptAt ≤ o.availableAt := by
      rcases hf with hlt | ⟨-, -, -, hpend⟩
      · rw [ho] at hlt
        exact absurd hlt (lt_irrefl _)
      · exact hpend hst (by rw [ho])
    simp only [JobRow.early, decide_eq_true_eq] at hearly
    have hlo : y.began ≤ _ := hlo
    omega

/-- A row of the current generation stays until the job is over. -/
theorem Change.outbox_kept {lease : ℕ} {lo hi : Env} {op : Op} {a : Answer} {v v' : JobView}
    (hc : Change lease id lo hi op a v v') {r : JobRow} (hr : v.row = some r) (hlive : ¬ r.terminal)
    {o : OutboxRow} (ho : o ∈ v.outbox) (hg : o.place.generation = r.generation) :
    ∃ o' ∈ v'.outbox, o'.id = o.id ∧ o'.place = o.place ∧ o'.availableAt = o.availableAt := by
  cases hc with
  | @published p row _ _ _ t₂ =>
    refine ⟨_, List.mem_map_of_mem ho, ?_, OutboxRow.mark_place _ _ _ _, mark_availableAt _ _ _ _⟩
    unfold OutboxRow.mark
    split <;> rfl
  | @dropped p q _ _ _ _ _ hover =>
    obtain rfl := Option.some.inj hr
    refine ⟨o, List.mem_filter.2 ⟨ho, ?_⟩, rfl, rfl, rfl⟩
    have : o.place ≠ p.place := by
      rintro heq
      rw [heq] at hg
      rcases hover with hlt | ⟨-, hterm⟩
      · exact absurd hg (Nat.ne_of_lt hlt)
      · exact hlive hterm
    simp [this]
  | created => cases hr
  | retried => exact ⟨o, List.mem_append_left _ ho, rfl, rfl, rfl⟩
  | requeued => exact ⟨o, List.mem_append_left _ ho, rfl, rfl, rfl⟩
  | _ => exact ⟨o, ho, rfl, rfl, rfl⟩

end Steps

/-! ## Wake-ups -/

/-- In every run, the outbox has a row of the current generation for each job that
    was created in the run and is not over: for a pending job the row of the next
    attempt, which is due when the job is or later, and for a job in progress one
    that is due. The delivery of a row for the next attempt is not early, and no
    step takes a row of the current generation from a job that is not over. -/
theorem no_lost_wakeup {cfg : Config} {s₀ s : State} {es : List Event} (h₀ : Initial s₀)
    (h : Run cfg s₀ es s) {id : JobId} (hnew : s₀.mysql.store.job? id = none) {r : JobRow}
    (hr : s.mysql.store.job? id = some r) :
    (r.status = .pending → ∃ o ∈ s.mysql.store.outboxOf id,
      o.place = ⟨id, r.generation, r.attemptCount + 1⟩ ∧ r.nextAttemptAt ≤ o.availableAt ∧
      (putBack (history id (closings es)) = true → o.availableAt = r.nextAttemptAt)) ∧
    (r.status = .processing → ∃ o ∈ s.mysql.store.outboxOf id,
      o.place.generation = r.generation ∧ o.availableAt ≤ s.mysql.clock) ∧
    (r.status = .pending → ∀ w x hd sid o how db op, s.workers w = some x →
      x.phase = .claiming hd sid → .published o hd.entry ∈ es →
      o.place = ⟨id, r.generation, r.attemptCount + 1⟩ →
      s.mysql.close sid how ≠ some (db, .aborted op (.noJob .early))) ∧
    ∀ a s' es', s.step cfg a = some (s', es') → ¬ r.terminal →
      ∀ o ∈ s.mysql.store.outboxOf id, o.place.generation = r.generation →
      ∃ o' ∈ s'.mysql.store.outboxOf id, o'.id = o.id ∧ o'.place = o.place ∧
        o'.availableAt = o.availableAt := by
  have hk := h.kept h₀
  have hcov := (h.life h₀ id).covered (h₀.sound id) (by simp [Tables.view, hnew]) r hr
  refine ⟨fun hst => ?_, hcov.processing, fun hst w x hd sid o how db op hw hx hmem ho => ?_, ?_⟩
  · obtain ⟨o, ho, hgen, hatt, hdue, -, hput⟩ := hcov.pending hst
    have hid := (s.mysql.store.mem_outboxOf.1 ho).2
    refine ⟨o, ho, ?_, hdue, hput⟩
    obtain ⟨_, ⟨_, _, _⟩, _, _⟩ := o
    simp_all
  · exact h.not_early h₀ (by simp [hnew]) hr hst hw hx hmem ho
  · intro a s' es' hs hlive o ho hg
    rcases (step_cases hs).view hk id with ⟨hsame, -⟩ | ⟨_, _, _, _, _, _, _, -, -, hchange, -⟩
    · have : s'.mysql.store.outboxOf id = s.mysql.store.outboxOf id :=
        congrArg JobView.outbox hsame
      exact ⟨o, this ▸ ho, rfl, rfl, rfl⟩
    · exact hchange.outbox_kept hr hlive ho hg

/-- The first job is put back, and its outbox row is due when the job is. -/
theorem no_lost_wakeup_first :
    let run := State.after (firstClaim ++ finishing "w" 4 0 (.failed "no" false))
    ∃ r, run.1.mysql.store.job? firstJob = some r ∧ r.status = .pending ∧
      putBack (history firstJob (closings run.2)) = true ∧
      ∃ o ∈ run.1.mysql.store.outboxOf firstJob, o.place = ⟨firstJob, 1, 2⟩ ∧
        o.availableAt = r.nextAttemptAt := by
  have h := (no_lost_wakeup .fresh (Run.play (.defaults id) .fresh
    (firstClaim ++ finishing "w" 4 0 (.failed "no" false)))
    (show State.fresh.mysql.store.job? firstJob = none from rfl) rfl).1 (by decide)
  obtain ⟨o, ho, hplace, -, heq⟩ := h
  exact ⟨_, rfl, by decide, by decide, o, ho, hplace, heq (by decide)⟩

end ScaleQueue
