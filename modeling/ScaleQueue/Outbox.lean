import ScaleQueue.Upgrade

/-!
# The rows of the outbox

A row of the outbox is identified by its place. Places are never taken twice, from a
fresh system or from an upgraded one (`outbox_identities`). A dispatch publishes a
row before it marks it (`Posted`), marks it again only after 30 seconds, and deletes
it only once its generation is over (`Over`), which it then stays.
-/

namespace ScaleQueue

open Locking

/-! ## Places -/

/-- In every run of a fresh or an upgraded system, no outbox row of a job is ahead of it:
    those of its generation are for attempts up to the next, and for attempts that
    were claimed while it is in progress. So neither a retry nor a requeue finds its
    place in the outbox taken, whatever `Dispatch` has removed. -/
theorem outbox_identities {cfg : Config} {s₀ s : State} {es : List Event} (h₀ : Initial s₀)
    (hstart : s₀.mysql.store = .empty ∨ ∃ l, Upgraded l s₀) (h : Run cfg s₀ es s)
    {id : JobId} {r : JobRow} (hr : s.mysql.store.job? id = some r) :
    (∀ o ∈ s.mysql.store.outboxOf id, o.place.generation ≤ r.generation ∧
      (o.place.generation = r.generation → o.place.attempt ≤ r.attemptCount + 1 ∧
        (r.status = .processing → o.place.attempt ≤ r.attemptCount))) ∧
    ∀ sid how db k, s.mysql.close sid how = some (db, k) →
      (∀ j message delay, j.id = id →
        k ≠ .aborted (.finish j .pending message delay) (.error .dupEntry)) ∧
      k ≠ .aborted (.requeueJob id) (.error .dupEntry) := by
  have hfits₀ : ∀ r ∈ (s₀.mysql.store.view id).row, ∀ o ∈ (s₀.mysql.store.view id).outbox,
      Fits o.place o.availableAt r := by
    rcases hstart with hempty | ⟨l, hup⟩
    · rw [hempty, Tables.view_empty]
      simp
    · obtain ⟨t₁, t₂, t₃, t₄, h₁₂, h₂₃, -, -, hup⟩ := hup.store
      exact fun r hr => up_fits hup (Nat.le_trans h₁₂ h₂₃) hr
  have hfits := (h.life h₀ id).fitting (h₀.sound id) hfits₀ r hr
  refine ⟨fun o ho => ?_, fun sid how db k hc => ⟨?_, ?_⟩⟩
  · rcases hfits o ho with hlt | ⟨hgen, hle, hproc, -⟩
    · exact ⟨Nat.le_of_lt hlt, fun hgen => absurd hgen (Nat.ne_of_lt hlt)⟩
    · exact ⟨Nat.le_of_eq hgen, fun _ => ⟨hle, hproc⟩⟩
  · rintro j message delay hid rfl
    obtain ⟨-, y, hi, -, -, hwhy, -⟩ := (h.kept h₀).abort hc
    cases hwhy with
    | retryTaken hq hown htaken =>
      rw [hid] at hq htaken
      obtain rfl := Option.some.inj (hr.symm.trans hq)
      exact htaken ((vacant_next hfits).1 (ownedBy_iff.1 hown).2.1)
  · rintro rfl
    obtain ⟨-, y, hi, -, -, hwhy, -⟩ := (h.kept h₀).abort hc
    cases hwhy with
    | requeueTaken hq _ htaken =>
      obtain rfl := Option.some.inj (hr.symm.trans hq)
      exact htaken (vacant_next hfits).2

/-- The first job, put back: the places of its two rows. -/
theorem outbox_identities_first :
    let s := (State.after (firstClaim ++ finishing "w" 4 0 (.failed "no" false))).1
    (s.mysql.store.outboxOf firstJob).map (·.place) = [⟨firstJob, 1, 1⟩, ⟨firstJob, 1, 2⟩] ∧
      ∃ r, s.mysql.store.job? firstJob = some r ∧
        ∀ o ∈ s.mysql.store.outboxOf firstJob, o.place.generation ≤ r.generation := by
  refine ⟨by decide, _, rfl, fun o ho => ?_⟩
  exact ((outbox_identities .fresh (.inl rfl) (Run.play _ _ _) rfl).1 o ho).1

/-! ## What a dispatch may write -/

/-- A dispatch may delete rows, and mark those that were posted. -/
def MayWrite (posted : OutboxRow → Prop) : Write → Prop
  | .deleteOutbox _ _ => True
  | .markOutbox p id _ => ∃ o, posted o ∧ o.place = p ∧ o.id = id
  | _ => False

theorem MayWrite.mono {posted posted' : OutboxRow → Prop} (h : ∀ o, posted o → posted' o)
    (w : Write) (hw : MayWrite posted w) : MayWrite posted' w := by
  cases w with
  | markOutbox p id now =>
    obtain ⟨o, ho, hrest⟩ := hw
    exact ⟨o, h o ho, hrest⟩
  | _ => exact hw

/-- The publication of a row, if it succeeds, allows for marking it. -/
def grants (o : OutboxRow) (ok : Bool) (w : Write) : Prop := ok = true ∧ MayWrite (· = o) w

theorem dispatch_granted : dispatch.Granted grants (MayWrite fun _ => False) := by
  intro e t k
  dsimp only
  split
  · split
    · trivial
    · rename_i o ho
      intro _ t'
      dsimp only
      split
      · trivial
      · split_ifs
        · exact ⟨fun _ _ w hw => by rw [List.mem_singleton.1 hw]; trivial, fun _ _ => trivial⟩
        · intro ok
          dsimp only
          split_ifs with hok
          · refine ⟨fun _ _ w hw => ?_, fun _ _ => trivial⟩
            rw [List.mem_singleton.1 hw]
            exact .inr ⟨hok, o, rfl, Tables.out?_place ho, rfl⟩
          · trivial
  · trivial

/-- One such write leaves a row as it is, deletes it, or marks it if it was posted. -/
theorem MayWrite.out? {posted : OutboxRow → Prop} {w : Write} (hw : MayWrite posted w)
    (t : Tables) (p : Place) :
    (t.out? p = none → (t.apply w).out? p = none) ∧
    ∀ o, t.out? p = some o → (t.apply w).out? p = none ∨ (t.apply w).out? p = some o ∨
      (∃ now, (t.apply w).out? p = some { o with publishedAt := some now }) ∧
        ∃ q, posted q ∧ q.place = p ∧ q.id = o.id := by
  cases w with
  | deleteOutbox q i =>
    rw [Tables.out?_deleteOutbox]
    split_ifs with hpq
    · subst hpq
      refine ⟨fun ht => by rw [ht]; rfl, fun o ho => ?_⟩
      rw [ho]
      by_cases hid : o.id = i
      · exact .inl (by simp [hid])
      · exact .inr (.inl (by simp [hid]))
    · exact ⟨fun ht => ht, fun o ho => .inr (.inl ho)⟩
  | markOutbox q i now =>
    rw [Tables.out?_markOutbox]
    refine ⟨fun ht => by rw [ht]; rfl, fun o ho => .inr ?_⟩
    rw [ho, Option.map_some, OutboxRow.mark]
    split_ifs with hmark
    · obtain ⟨x, hx, hplace, hid⟩ := hw
      refine .inr ⟨⟨now, rfl⟩, x, hx, hplace.trans ?_, hid.trans hmark.1.symm⟩
      exact hmark.2.symm.trans (Tables.out?_place ho)
    · exact .inl rfl
  | _ => exact absurd hw id

/-- Such writes mark a row, if anything, that was posted. -/
theorem marked_of_mayWrite {posted : OutboxRow → Prop} {t : Tables} {ws : List Write}
    (hws : ∀ w ∈ ws, MayWrite posted w) {p : Place} {o o' : OutboxRow} (ho : t.out? p = some o)
    (ho' : (applyAll t ws).out? p = some o') (hne : o'.publishedAt ≠ o.publishedAt) :
    ∃ q, posted q ∧ q.place = p ∧ q.id = o.id := by
  have gone {ws : List Write} {t : Tables} (hws : ∀ w ∈ ws, MayWrite posted w)
      (ht : t.out? p = none) : (applyAll t ws).out? p = none := by
    induction ws generalizing t with
    | nil => exact ht
    | cons w ws ih =>
      exact ih (fun w' hw' => hws w' (List.mem_cons_of_mem _ hw'))
        (((hws w List.mem_cons_self).out? t p).1 ht)
  induction ws generalizing t o with
  | nil => exact absurd (congrArg OutboxRow.publishedAt (Option.some.inj (ho'.symm.trans ho))) hne
  | cons w ws ih =>
    have hws' : ∀ w' ∈ ws, MayWrite posted w' := fun w' hw' => hws w' (List.mem_cons_of_mem _ hw')
    rcases ((hws w List.mem_cons_self).out? t p).2 o ho with hnone | hsame | ⟨-, hposted⟩
    · have := gone hws' hnone
      rw [show applyAll t (w :: ws) = applyAll (t.apply w) ws from rfl, this] at ho'
      cases ho'
    · exact ih hws' hsame ho' hne
    · exact hposted

/-! ## Publications -/

/-- In the run, session `sid` waited for the publication of `o`, which succeeded. -/
def Posted (cfg : Config) (s₀ : State) (sid : Sid) (es : List Event) (s : State)
    (o : OutboxRow) : Prop :=
  ∃ es₁ s₁ e s₂ es₂, Run cfg s₀ es₁ s₁ ∧ s₁.mysql.waiting sid = some o ∧
    s₁.step cfg (.publish sid true true) = some (s₂, [.published o e]) ∧
    e.values = encode o.place ∧ Run cfg s₂ es₂ s ∧ es = es₁ ++ [.published o e] ++ es₂

section Steps

variable {cfg : Config} {s₀ s s' : State} {es es' : List Event} {sid : Sid} {a : Action}

theorem Posted.step {o : OutboxRow} (h : Posted cfg s₀ sid es s o)
    (hs : s.step cfg a = some (s', es')) : Posted cfg s₀ sid (es ++ es') s' o := by
  obtain ⟨es₁, s₁, e, s₂, es₂, hrun, hwait, hpub, hval, hrest, rfl⟩ := h
  exact ⟨es₁, s₁, e, s₂, es₂ ++ es', hrun, hwait, hpub, hval, hrest.step hs, by simp⟩

/-- In every run, a dispatch marks nothing but what it has posted. -/
theorem Run.posted (h : Run cfg s₀ es s) (h₀ : Initial s₀) {y : Conn}
    (hy : s.mysql.sessions sid = some y) (hop : y.op = .dispatch) :
    y.rest.Granted grants (MayWrite (Posted cfg s₀ sid es s)) ∧
      ∀ w ∈ y.writes, MayWrite (Posted cfg s₀ sid es s) w := by
  induction h generalizing y with
  | refl => simp [h₀.sessions] at hy
  | @step es es' s s' a h hs ih =>
    have mono : ∀ w, MayWrite (Posted cfg s₀ sid es s) w →
        MayWrite (Posted cfg s₀ sid (es ++ es') s') w := MayWrite.mono fun o ho => ho.step hs
    have old {y' : Conn} (hy' : s.mysql.sessions sid = some y') (hop' : y.op = y'.op) :
        y'.rest.Granted grants (MayWrite (Posted cfg s₀ sid (es ++ es') s')) ∧
          ∀ w ∈ y'.writes, MayWrite (Posted cfg s₀ sid (es ++ es') s') w := by
      obtain ⟨hrest, hwrites⟩ := ih hy' (hop' ▸ hop)
      exact ⟨hrest.mono mono, fun w hw => mono w (hwrites w hw)⟩
    have hstep := step_cases hs
    cases hstep.continues (h.paired h₀) hy with
    | stays hy' hop' _ hrest hwrites =>
      rw [hrest, hwrites]
      exact old hy' hop'
    | runs _ hy' hop' _ _ hran => exact hran.granted (old hy' hop')
    | @answered y' o next applied ok hy' hop' _ hcall ha hnext hwrites =>
      obtain ⟨hrest, hold⟩ := old hy' hop'
      rw [hcall] at hrest
      rw [hnext, hwrites]
      refine ⟨(hrest ok).mono fun w hw => hw.elim id fun ⟨hok, hgrant⟩ => ?_, hold⟩
      -- What the answer grants was posted in this very step.
      subst ha hok
      have hwait : s.mysql.waiting sid = some o := by simp [Server.waiting, hy', hcall]
      refine MayWrite.mono (fun q hq => ?_) w hgrant
      subst hq
      cases hstep with
      | publish ho =>
        obtain rfl := Option.some.inj (hwait.symm.trans ho)
        exact ⟨es, s, _, _, [], h, hwait, hs, rfl, .refl, by simp⟩
    | opened _ _ hrest _ hwrites =>
      rw [hrest, hwrites, hop]
      exact ⟨dispatch_granted.mono fun w hw => MayWrite.mono (fun _ => False.elim) w hw, by simp⟩

end Steps

/-! ## One job -/

/-- The job has gone past the place: to another generation, or to the end of this one. -/
def JobRow.Passed (r : JobRow) (p : Place) : Prop :=
  p.generation < r.generation ∨ p.generation = r.generation ∧ r.terminal

/-- The place is vacant, and of no more use. -/
structure Over (p : Place) (v : JobView) : Prop where
  vacant : Vacant p v.outbox
  passed : ∃ r ∈ v.row, r.Passed p

/-- What was published at time `t` is no longer at the place, or was published then or
    later. -/
def PublishedSince (p : Place) (t : ℕ) (v : JobView) : Prop :=
  Over p v ∨ ∃ o ∈ v.outbox, o.place = p ∧ ∃ u, o.publishedAt = some u ∧ t ≤ u

section Changes

variable {lease : ℕ} {id : JobId} {lo hi : Env} {op : Op} {a : Answer} {v v' : JobView} {p : Place}

theorem Change.passed (hc : Change lease id lo hi op a v v') {r : JobRow} (hr : v.row = some r)
    (h : r.Passed p) : ∃ r' ∈ v'.row, r'.Passed p := by
  obtain ⟨r', hr', hprec⟩ := hc.ages r hr
  refine ⟨r', hr', ?_⟩
  rcases h with hlt | ⟨heq, hterm⟩
  · exact .inl (Nat.lt_of_lt_of_le hlt (hprec.ages.elim Nat.le_of_lt fun h => Nat.le_of_eq h.1))
  · exact hprec.ages.imp (heq ▸ ·) fun h => ⟨heq.trans h.1, h.2 hterm⟩

/-- What a change does to a row of the outbox: nothing, or it is a dispatch that
    publishes the row or deletes it. -/
theorem Change.outbox_row (hc : Change lease id lo hi op a v v')
    (hn : (v.outbox.map (·.place)).Nodup) {o : OutboxRow} (ho : o ∈ v.outbox) :
    o ∈ v'.outbox ∨ op = .dispatch ∧ a = .dispatched o.place ∧
      ((∃ t₁ t₂, o.due t₁ = true ∧ t₁ ≤ t₂ ∧ t₂ ≤ hi.now ∧
        { o with publishedAt := some t₂ } ∈ v'.outbox) ∨
      Over o.place v') := by
  have same {q : OutboxRow} (hq : q ∈ v.outbox) (hp : q.place = o.place) : q = o :=
    List.inj_on_of_nodup_map hn hq ho hp
  cases hc with
  | @published q _ _ _ t₁ t₂ hq hdue _ ht hhi =>
    by_cases hp : q.place = o.place
    · obtain rfl := same hq hp
      refine .inr ⟨rfl, rfl, .inl ⟨t₁, t₂, hdue, ht, hhi, List.mem_map.2 ⟨q, ho, ?_⟩⟩⟩
      simp [OutboxRow.mark]
    · refine .inl (List.mem_map.2 ⟨o, ho, if_neg fun h => hp h.2.symm⟩)
  | @dropped q r _ _ _ hq _ hover =>
    by_cases hp : q.place = o.place
    · obtain rfl := same hq hp
      refine .inr ⟨rfl, rfl, .inr ⟨fun x hx hplace => ?_, r, rfl, hover⟩⟩
      obtain ⟨hx, hne⟩ := List.mem_filter.1 hx
      simp [same hx hplace] at hne
    · exact .inl (List.mem_filter.2 ⟨ho, by simp [Ne.symm hp]⟩)
  | retried => exact .inl (List.mem_append_left _ ho)
  | created => exact .inl (List.mem_append_left _ ho)
  | requeued => exact .inl (List.mem_append_left _ ho)
  | _ => exact .inl ho

/-- A place that is over is not taken again. -/
theorem Change.over (hc : Change lease id lo hi op a v v') (h : Over p v) : Over p v' := by
  obtain ⟨hvacant, r, hr, hpassed⟩ := h
  refine ⟨fun o ho heq => ?_, hc.passed hr hpassed⟩
  cases hc with
  | published =>
    obtain ⟨q, hq, rfl⟩ := mem_mark.1 ho
    exact hvacant q hq (by simpa using heq)
  | dropped => exact hvacant o (List.mem_filter.1 ho).1 heq
  | retried _ _ hown =>
    obtain rfl := Option.some.inj hr
    rcases List.mem_append.1 ho with ho | ho
    · exact hvacant o ho heq
    · rw [List.mem_singleton.1 ho] at heq
      subst heq
      rcases hpassed with hlt | ⟨-, hterm⟩
      · exact absurd hlt (lt_irrefl _)
      · exact not_terminal_of_processing (ownedBy_iff.1 hown).2.1 hterm
  | requeued =>
    obtain rfl := Option.some.inj hr
    rcases List.mem_append.1 ho with ho | ho
    · exact hvacant o ho heq
    · rw [List.mem_singleton.1 ho] at heq
      subst heq
      rcases hpassed with hlt | ⟨hgen, -⟩
      · exact absurd hlt (Nat.not_lt.2 (Nat.le_succ _))
      · exact absurd hgen (Nat.succ_ne_self _)
  | created => cases hr
  | _ => exact hvacant o ho heq

theorem Change.publishedSince (hc : Change lease id lo hi op a v v')
    (hn : (v.outbox.map (·.place)).Nodup) {t : ℕ} (h : PublishedSince p t v) :
    PublishedSince p t v' := by
  rcases h with hover | ⟨o, ho, rfl, u, hu, hle⟩
  · exact .inl (hc.over hover)
  · rcases hc.outbox_row hn ho with hkept | ⟨-, -, ⟨t₁, t₂, hdue, ht, -, hmem⟩ | hover⟩
    · exact .inr ⟨o, hkept, rfl, u, hu, hle⟩
    · refine .inr ⟨_, hmem, rfl, t₂, rfl, ?_⟩
      have := due_published hdue hu
      generalize republishAfter = d at this
      omega
    · exact .inl hover

end Changes

/-! ## The system -/

theorem outbox_nodup (t : Tables) (id : JobId) :
    ((t.view id).outbox.map (·.place)).Nodup :=
  t.dispatchIdentity.sublist (List.filter_sublist.map _)

theorem mem_view_outbox {t : Tables} {p : Place} {o : OutboxRow} (h : t.out? p = some o) :
    o ∈ (t.view p.jobId).outbox ∧ o.place = p := by
  have hp := Tables.out?_place h
  exact ⟨t.mem_outboxOf.2 ⟨Tables.out?_mem h, by rw [hp]⟩, hp⟩

theorem out?_of_view {t : Tables} {id : JobId} {o : OutboxRow} (h : o ∈ (t.view id).outbox) :
    t.out? o.place = some o := Tables.out?_of_mem (t.mem_outboxOf.1 h).1

theorem Over.out? {t : Tables} {p : Place} (h : Over p (t.view p.jobId)) : t.out? p = none := by
  cases ho : t.out? p with
  | none => rfl
  | some o =>
    obtain ⟨hmem, hp⟩ := mem_view_outbox ho
    exact absurd hp (h.vacant o hmem)

section Runs

variable {cfg : Config} {s₀ s s' : State} {es es' : List Event} {p : Place}

/-- What every change on a job keeps, every run keeps. -/
theorem Run.keeps (h₀ : Initial s₀) (h : Run cfg s₀ es s) (h' : Run cfg s es' s')
    {P : JobView → Prop} (id : JobId)
    (hP : ∀ lo hi op a v v', Change cfg.lease id lo hi op a v v' →
      (v.outbox.map (·.place)).Nodup → P v → P v')
    (hs : P (s.mysql.store.view id)) : P (s'.mysql.store.view id) := by
  induction h' with
  | refl => exact hs
  | step h' hstep ih =>
    rcases (step_cases hstep).view ((h.trans h').kept h₀) id with
      ⟨hsame, -⟩ | ⟨_, _, _, op, b, lo, hi, -, -, hchange, -⟩
    · exact hsame ▸ ih
    · exact hP _ _ _ _ _ _ hchange (outbox_nodup _ _) ih

/-- A row that is published in a step is a row that was posted. -/
theorem Run.published (h : Run cfg s₀ es s) (h₀ : Initial s₀) {a : Action}
    (hs : s.step cfg a = some (s', es')) {o o' : OutboxRow} (ho : s.mysql.store.out? p = some o)
    (ho' : s'.mysql.store.out? p = some o') (hne : o'.publishedAt ≠ o.publishedAt) :
    ∃ sid t₁ t, .closed sid (.committed .dispatch (.dispatched p)) ∈ es' ∧ o.due t₁ = true ∧
      t₁ ≤ t ∧ t ≤ s.mysql.clock ∧ o' = { o with publishedAt := some t } ∧
      ∃ q, Posted cfg s₀ sid es s q ∧ q.place = p ∧ q.id = o.id := by
  have hk := h.kept h₀
  have hstep := step_cases hs
  obtain ⟨hmem, rfl⟩ := mem_view_outbox ho
  rcases hstep.view hk o.place.jobId with
    ⟨hsame, -⟩ | ⟨sid, how, db, op, b, lo, hi, rfl, hc, hchange, -, hhi, -⟩
  · have := out?_of_view (hsame ▸ hmem)
    exact absurd (congrArg OutboxRow.publishedAt (Option.some.inj (ho'.symm.trans this))) hne
  rcases hchange.outbox_row (outbox_nodup _ _) hmem with hkept | ⟨rfl, rfl, hmarked | hover⟩
  · have := out?_of_view hkept
    exact absurd (congrArg OutboxRow.publishedAt (Option.some.inj (ho'.symm.trans this))) hne
  · obtain ⟨t₁, t₂, hdue, ht, hle, hmem'⟩ := hmarked
    have hsome := out?_of_view hmem'
    have heq := Option.some.inj (ho'.symm.trans hsome)
    obtain ⟨_, _, hc', hclosed, hstore⟩ := hstep.closing
    obtain ⟨rfl, rfl⟩ := Prod.mk.inj (Option.some.inj (hc.symm.trans hc'))
    refine ⟨sid, t₁, t₂, mem_closings.1 (by simp [hclosed]), hdue, ht, Nat.le_trans hle hhi, heq,
      ?_⟩
    -- The commit applies the writes of the session, which are such as it may make.
    obtain ⟨y, hy, ⟨_, -, hcom, hdb⟩ | ⟨_, _, hcom, _⟩ | ⟨hcom, _⟩⟩ := Server.close_cases hc
    · obtain ⟨hop, -⟩ := Closed.committed.inj hcom
      refine marked_of_mayWrite (h.posted h₀ hy hop.symm).2 ho ?_ hne
      rw [← ho', hstore, hdb]
      rfl
    · cases hcom
    · cases hcom
  · rw [hover.out?] at ho'
    cases ho'

end Runs

/-- In every run, `published_at` of an outbox row changes only by a dispatch that commits,
    and that posted the row before, successfully and under its own job and generation; the
    next publication of the row is more than 30 seconds later. A step in which no
    transaction commits leaves all the tables as they are. A row is removed only when its
    job has gone past it: to another generation, or to the end of its own; and then
    forever. -/
theorem dispatch_publishes_first {cfg : Config} {s₀ s s' : State} {es es' : List Event}
    {a : Action} (h₀ : Initial s₀) (h : Run cfg s₀ es s) (hs : s.step cfg a = some (s', es')) :
    (∀ p o o', s.mysql.store.out? p = some o → s'.mysql.store.out? p = some o' →
      o'.publishedAt ≠ o.publishedAt →
      ∃ sid t, .closed sid (.committed .dispatch (.dispatched p)) ∈ es' ∧
        o' = { o with publishedAt := some t } ∧ t ≤ s.mysql.clock ∧
        (∃ q, Posted cfg s₀ sid es s q ∧ q.place = p ∧ q.id = o.id) ∧
        ∀ es₁ s₁ b s₂ es₂ q q', Run cfg s' es₁ s₁ → s₁.step cfg b = some (s₂, es₂) →
          s₁.mysql.store.out? p = some q → s₂.mysql.store.out? p = some q' →
          q'.publishedAt ≠ q.publishedAt →
          ∃ t', q'.publishedAt = some t' ∧ t + 30000000 < t') ∧
    ((∀ sid op b, .closed sid (.committed op b) ∉ es') → s'.mysql.store = s.mysql.store) ∧
    ∀ p o, s.mysql.store.out? p = some o → s'.mysql.store.out? p = none →
      ∀ es₁ s₁, Run cfg s' es₁ s₁ → s₁.mysql.store.out? p = none ∧
        ∃ r, s₁.mysql.store.job? p.jobId = some r ∧ (p.generation < r.generation ∨
          p.generation = r.generation ∧ (r.status = .completed ∨ r.status = .dead)) := by
  have h' : Run cfg s₀ (es ++ es') s' := h.step hs
  refine ⟨fun p o o' ho ho' hne => ?_, fun hno => ?_, fun p o ho hnone es₁ s₁ hrun => ?_⟩
  · obtain ⟨sid, t₁, t, hclosed, -, -, ht, rfl, hposted⟩ := h.published h₀ hs ho ho' hne
    refine ⟨sid, t, hclosed, rfl, ht, hposted, fun es₁ s₁ b s₂ es₂ q q' hrun hb hq hq' hne' => ?_⟩
    obtain ⟨_, t₂, t', -, hdue, hle, -, rfl, -⟩ := (h'.trans hrun).published h₀ hb hq hq' hne'
    -- Since then, the place has not been published earlier than at `t`.
    have hsince : PublishedSince p t (s₁.mysql.store.view p.jobId) :=
      h'.keeps h₀ hrun p.jobId (P := PublishedSince p t)
        (fun _ _ _ _ _ _ hc hn => hc.publishedSince hn)
        (.inr ⟨_, (mem_view_outbox ho').1, (mem_view_outbox ho').2, t, rfl, le_rfl⟩)
    refine ⟨t', rfl, ?_⟩
    rcases hsince with hover | ⟨x, hx, rfl, u, hu, htu⟩
    · rw [hover.out?] at hq
      cases hq
    · obtain rfl := Option.some.inj (hq.symm.trans (out?_of_view hx))
      have hlt : u + 30000000 < t₂ := due_published hdue hu
      omega
  · refine (step_cases hs).steps.store_eq fun sid op b hmem => hno sid op b (mem_closings.1 hmem)
  · have hover : Over p (s'.mysql.store.view p.jobId) := by
      obtain ⟨hmem, rfl⟩ := mem_view_outbox ho
      rcases (step_cases hs).view (h.kept h₀) o.place.jobId with
        ⟨hsame, -⟩ | ⟨_, _, _, _, _, _, _, -, -, hchange, -⟩
      · rw [out?_of_view (hsame ▸ hmem)] at hnone
        cases hnone
      · rcases hchange.outbox_row (outbox_nodup _ _) hmem with
          hkept | ⟨-, -, ⟨_, _, -, -, -, hmem'⟩ | hover⟩
        · rw [out?_of_view hkept] at hnone
          cases hnone
        · have hsome := out?_of_view hmem'
          rw [hnone] at hsome
          cases hsome
        · exact hover
    have hlater := h'.keeps h₀ hrun p.jobId (P := Over p) (fun _ _ _ _ _ _ hc _ => hc.over) hover
    obtain ⟨r, hr, hpassed⟩ := hlater.passed
    exact ⟨hlater.out?, r, hr, hpassed⟩

/-- The first row is published and marked. -/
theorem dispatch_publishes_first_first :
    let run := State.after (creating 0 0 0 firstInput firstJob ++ [.startDispatcher 0] ++
      (dispatching 0 2 0).dropLast)
    ∃ t q, Posted (.defaults id) .fresh ⟨.dispatcher 0, 2⟩ run.2 run.1 q ∧
      q.place = ⟨firstJob, 1, 1⟩ ∧ t ≤ run.1.mysql.clock := by
  let run := State.after (creating 0 0 0 firstInput firstJob ++ [.startDispatcher 0] ++
    (dispatching 0 2 0).dropLast)
  have hs : run.1.step (.defaults id) (.close ⟨.dispatcher 0, 2⟩ .commit) = some (_, _) := rfl
  obtain ⟨sid, t, hclosed, -, ht, ⟨q, hq, hplace, -⟩, -⟩ :=
    (dispatch_publishes_first .fresh (Run.play _ _ _) hs).1 ⟨firstJob, 1, 1⟩ _ _ rfl rfl (by decide)
  obtain rfl : sid = ⟨.dispatcher 0, 2⟩ := (Event.closed.inj (List.mem_singleton.1 hclosed)).1
  exact ⟨t, q, hq, hplace, ht⟩

end ScaleQueue
