import ScaleQueue.Drain
import ScaleQueue.Easing
import ScaleQueue.Locking.Solo

/-!
# A lost stream heals, with a group

While the consumer group exists, the workers need nobody else for a job that is not over:
from every reachable state they can go on until it is claimed again, or over. Whoever has
locked the job or its outbox row runs out of time, and so does what a worker has in hand;
the calls of `Dispatch` then visit one due row after the other, and publish that of the
job; the consumer loop reads one message after the other, and claims the job. The measures
are the rows that are due, and the entries that are unread.

Without the group the workers claim nothing, and nothing they do brings it back.
-/

namespace ScaleQueue

open Locking

/-! ## The job is due -/

/-- Worker `w` has nothing in hand, and can claim the job of the place. -/
structure Ripe (cfg : Config) (p : Place) (w : WorkerId) (x : Worker) (s : State) : Prop where
  reached : s.Reached cfg p.jobId
  worker : s.workers w = some x
  up : x.up = true
  going : x.stopping = false
  idle : x.phase = .idle
  free : s.mysql.locks (.job p.jobId) = none
  row : ∃ r, s.mysql.store.job? p.jobId = some r ∧ r.Claimable p.generation s.mysql.clock

/-- Dispatcher `d` can publish the place, too. -/
structure Poised (cfg : Config) (p : Place) (w : WorkerId) (x : Worker) (d : ℕ) (s : State) :
    Prop extends Ripe cfg p w x s where
  dispatcher : s.dispatchers d = some ⟨none, false, true⟩
  group : s.stream.group.isSome
  open_ : s.mysql.locks (.out p) = none
  due : ∃ o, s.mysql.store.out? p = some o ∧ o.due s.mysql.clock = true

section Ripe

variable {cfg : Config} {s s' : State} {es : List Event} {w : WorkerId} {x x' : Worker} {d : ℕ}
  {p : Place}

theorem Eases.free (h : Eases cfg s s') {k : Key} (hk : s.mysql.locks k = none) :
    s'.mysql.locks k = none := by
  cases hk' : s'.mysql.locks k with
  | none => rfl
  | some sid => exact absurd (hk.symm.trans (h.locks k sid hk')) nofun

theorem Going.eases (h : Going cfg p w d s) (he : Eases cfg s s') :
    Going cfg p w d s' ∨ s.Heals cfg p.jobId := by
  obtain ⟨es, ho⟩ := he.onward
  exact h.onward ho

/-- A job can be claimed once its lease and its delay are over. -/
theorem claimable_later {r : JobRow} {g t : ℕ} (hgen : r.generation = g) (hlive : ¬ r.terminal)
    (hlease : r.leaseUntil.getD 0 ≤ t) (hnext : r.nextAttemptAt ≤ t) : r.Claimable g t := by
  refine ⟨hgen, hlive, ?_, ?_⟩
  · rintro ⟨-, hactive⟩
    cases hu : r.leaseUntil with
    | none => simp [JobRow.active, hu] at hactive
    | some u =>
      simp only [JobRow.active, hu, Option.any_some, decide_eq_true_eq] at hactive
      rw [hu, Option.getD_some] at hlease
      omega
  · simp only [JobRow.early, decide_eq_false_iff_not, Nat.not_lt]
    exact hnext

/-- A row is due once it is available and its last publication is long ago. -/
theorem due_later {o : OutboxRow} {t : ℕ} (havail : o.availableAt ≤ t)
    (hpub : o.publishedAt.getD 0 + republishAfter < t) : o.due t = true := by
  simp only [OutboxRow.due, Bool.and_eq_true, decide_eq_true_eq]
  refine ⟨havail, ?_⟩
  cases hu : o.publishedAt with
  | none => rfl
  | some u =>
    rw [hu, Option.getD_some] at hpub
    rw [Option.all_some]
    exact decide_eq_true hpub

/-- From any state the workers can come to where the job is due, and nobody in the way,
    if the job is not over before. -/
theorem Going.poised (h : Going cfg p w d s) :
    s.Heals cfg p.jobId ∨ ∃ s' x, Eases cfg s s' ∧ Poised cfg p w x d s' := by
  -- The locks are released, and both the worker and the dispatcher come to rest.
  obtain ⟨s₁, h₁, hjob⟩ := freed h.reached (h.inner (.job p.jobId) (.inl rfl))
  rcases h.eases h₁ with hg₁ | hheals
  swap
  · exact .inl hheals
  obtain ⟨s₂, h₂, hout⟩ := freed hg₁.reached (hg₁.inner (.out p) (.inr rfl))
  rcases hg₁.eases h₂ with hg₂ | hheals
  swap
  · exact .inl (h₁.heals hheals)
  obtain ⟨x, hx, hup, -⟩ := hg₂.worker
  obtain ⟨s₃, x₃, h₃, hx₃, hidle⟩ := calmed hg₂.reached hx hup
  rcases hg₂.eases h₃ with hg₃ | hheals
  swap
  · exact .inl ((h₁.trans h₂).heals hheals)
  obtain ⟨o, hd⟩ := hg₃.dispatcher
  obtain ⟨s₄, h₄, hworkers, hd₄⟩ := idled hg₃.reached hd
  rcases hg₃.eases h₄.toEases with hg₄ | hheals
  swap
  · exact .inl (((h₁.trans h₂).trans h₃).heals hheals)
  obtain ⟨r, hr, hlive, hgen⟩ := hg₄.live
  obtain ⟨q, hq⟩ := Option.isSome_iff_exists.1 hg₄.listed
  obtain ⟨x₄, hx₄, hup₄, hgo₄⟩ := hg₄.worker
  obtain rfl : x₃ = x₄ := Option.some.inj (hx₃.symm.trans (hworkers ▸ hx₄))
  -- Whatever the job and its row wait for is over after this time.
  obtain ⟨t, hlease, hnext, havail, hpub⟩ : ∃ t, r.leaseUntil.getD 0 ≤ t ∧ r.nextAttemptAt ≤ t ∧
      q.availableAt ≤ t ∧ q.publishedAt.getD 0 + republishAfter < t :=
    ⟨r.leaseUntil.getD 0 + r.nextAttemptAt + q.availableAt +
      (q.publishedAt.getD 0 + republishAfter) + 1, by omega, by omega, by omega, by omega⟩
  have h₅ := Rests.advance cfg s₄ t
  have hall := ((h₁.trans h₂).trans h₃).trans (h₄.toEases.trans h₅.toEases)
  have hlate : t ≤ (s₄.mysql.advance t).clock := Nat.le_add_left _ _
  have hfree : ∀ k, s₂.mysql.locks k = none → s₄.mysql.locks k = none :=
    fun k hk => h₄.free (h₃.free hk)
  have hclaim : r.Claimable p.generation (s₄.mysql.advance t).clock :=
    claimable_later hgen hlive (hlease.trans hlate) (hnext.trans hlate)
  have hdue : q.due (s₄.mysql.advance t).clock = true :=
    due_later (havail.trans hlate) (Nat.lt_of_lt_of_le hpub hlate)
  exact .inr ⟨_, x₃, hall, ⟨h₅.reached hg₄.reached, hx₄, hup₄, hgo₄, hidle,
    hfree _ (h₂.free hjob), r, hr, hclaim⟩, hd₄, hg₄.group, hfree _ hout, q, hq, hdue⟩

/-! ### A call of `Dispatch` -/

/-- The worker processes go on from `s` to `s'`, in which a call of `Dispatch` has visited the
    row. -/
structure Visits (cfg : Config) (d : ℕ) (o : OutboxRow) (s s' : State) : Prop where
  onward : ∃ es, Onward cfg s es s'
  workers : s'.workers = s.workers
  dispatcher : s'.dispatchers d = some ⟨none, false, true⟩
  clock : s'.mysql.clock = s.mysql.clock
  locks : s'.mysql.locks = s.mysql.locks
  visit : s.mysql.store.live o.place = true ∧ s'.stream = s.stream.xadd (encode o.place) ∧
      s'.mysql.store = s.mysql.store.apply (.markOutbox o.place o.id s.mysql.clock) ∨
    s.mysql.store.live o.place = false ∧ s'.stream = s.stream ∧
      s'.mysql.store = s.mysql.store.apply (.deleteOutbox o.place o.id)

theorem Onward.exec (cfg : Config) {sid : Sid} (hin : sid.inner) {now : ℕ} {db : MySQL}
    (hx : s.mysql.exec sid now = some db) : Onward cfg s [] { s with mysql := db } :=
  .one (.exec hin now) (by simp only [State.step, hx, Option.map_some])

theorem dispatch_begins (cfg : Config) (hd : s.dispatchers d = some ⟨none, false, true⟩) :
    ∃ s', s.step cfg (.dispatch d) = some (s', []) ∧ s'.workers = s.workers ∧
      s'.stream = s.stream ∧ s'.dispatchers d = some ⟨some ⟨.dispatcher d, s.opened⟩, false, true⟩ ∧
      s'.mysql = s.mysql.begin ⟨.dispatcher d, s.opened⟩ (Op.script cfg) .dispatch := by
  refine ⟨(s.affect cfg { opens := some (.dispatcher d, .dispatch) }).setDispatcher d
    ⟨some ⟨.dispatcher d, s.opened⟩, false, true⟩, ?_, rfl, rfl, Function.update_self _ _ _, rfl⟩
  simp only [State.step, hd]

theorem dispatch_ends (cfg : Config) {sid : Sid} {how : Closing} {db : MySQL}
    {c : Closed Answer Op} (hparty : sid.party = .dispatcher d)
    (hd : s.dispatchers d = some ⟨some sid, false, true⟩)
    (hc : s.mysql.close sid how = some (db, c)) : s.step cfg (.close sid how) =
      some ({ s with mysql := db }.setDispatcher d ⟨none, false, true⟩, [.closed sid c]) := by
  simp [State.step, hc, State.deliver, hparty, hd]

/-- A call of `Dispatch`, with nobody else at work, visits the row that is due next. -/
theorem visited (cfg : Config) (hd : s.dispatchers d = some ⟨none, false, true⟩)
    (hfresh : s.Fresh) {o : OutboxRow}
    (ho : nextDue s.mysql.clock s.mysql.store (fun k => s.mysql.locks k = none) = some o)
    {job : JobRow} (hjob : s.mysql.store.job? o.place.jobId = some job) :
    ∃ s', Visits cfg d o s s' := by
  obtain ⟨hmem, -, hfree⟩ := nextDue_some ho
  have hfree := of_decide_eq_true hfree
  have hkeys : ∀ k ∈ [Key.out o.place], s.mysql.locks k = none :=
    fun k hk => List.mem_singleton.1 hk ▸ hfree
  obtain ⟨s₁, hs₁, hworkers, hstream, hd₁, hbegin⟩ := dispatch_begins cfg hd
  generalize hsid : Sid.mk (.dispatcher d) s.opened = sid at hd₁ hbegin
  have hin : sid.inner := hsid ▸ nofun
  have hparty : sid.party = .dispatcher d := by rw [← hsid]
  have hsolo₁ := Server.Solo.begin (Op.script cfg) Op.dispatch fun k =>
    hsid ▸ hfresh (.dispatcher d) k
  rw [← hbegin] at hsolo₁
  obtain ⟨m₂, e₂, hx₂, hsolo₂⟩ := hsolo₁.scan rfl hfree fun _ => by rw [ho]; rfl
  simp only [Tables.out?_of_mem hmem] at hsolo₂
  obtain ⟨m₃, e₃, hx₃, hsolo₃⟩ := hsolo₂.read rfl
  simp only [hjob] at hsolo₃
  have hread : Onward cfg s _ { s₁ with mysql := m₃ } :=
    ((Onward.one (.dispatch d) hs₁).trans (.exec cfg hin hx₂)).trans
      (Onward.exec (s := { s₁ with mysql := m₂ }) cfg hin hx₃)
  by_cases hover : job.generation ≠ o.place.generation ∨ job.terminal
  -- The generation of the row is over, and the row is deleted.
  · rw [if_pos hover] at hsolo₃
    obtain ⟨m₄, e₄, -, hx₄, hsolo₄⟩ := hsolo₃.stmt rfl hkeys
    obtain ⟨m₅, hc, hafter⟩ := hsolo₄.commit rfl
    have hclose := dispatch_ends (s := { s₁ with mysql := m₄ }) cfg hparty hd₁ hc
    refine ⟨_, ⟨_, (hread.trans (Onward.exec (s := { s₁ with mysql := m₃ }) cfg hin hx₄)).step
      (.commit hin) hclose⟩, hworkers, Function.update_self _ _ _, hafter.clock, hafter.locks,
      .inr ⟨?_, hstream, hafter.store⟩⟩
    simp only [Tables.live, hjob, Option.any_some, decide_eq_false_iff_not]
    tauto
  -- The row is published, and marked.
  · rw [if_neg hover] at hsolo₃
    obtain ⟨hwait, m₄, hx₄, hsolo₄⟩ := hsolo₃.answer rfl true
    simp only [if_true] at hsolo₄
    obtain ⟨m₅, e₅, hnow, hx₅, hsolo₅⟩ := hsolo₄.stmt rfl hkeys
    obtain ⟨m₆, hc, hafter⟩ := hsolo₅.commit rfl
    obtain ⟨es, hpublish⟩ : ∃ es,
        State.step cfg { s₁ with mysql := m₃ } (.publish sid true true) =
          some ({ s₁ with mysql := m₄, stream := s₁.stream.xadd (encode o.place) }, es) := by
      simp only [State.step, hwait, hx₄, if_true]
      exact ⟨_, rfl⟩
    have hexec := Onward.exec
      (s := { s₁ with mysql := m₄, stream := s₁.stream.xadd (encode o.place) }) cfg hin hx₅
    have hclose := dispatch_ends
      (s := { s₁ with mysql := m₅, stream := s₁.stream.xadd (encode o.place) }) cfg hparty hd₁ hc
    refine ⟨_, ⟨_, ((hread.step (.publish sid) hpublish).trans hexec).step (.commit hin) hclose⟩,
      hworkers, Function.update_self _ _ _, hafter.clock, hafter.locks,
      .inl ⟨?_, congrArg (·.xadd (encode o.place)) hstream, ?_⟩⟩
    · simp only [Tables.live, hjob, Option.any_some, decide_eq_true_eq]
      tauto
    · rw [show State.mysql _ = m₆ from rfl, hafter.store, hnow]
      rfl

/-! ### Calls until the place is published -/

/-- The row that is marked is the one that is not due any more. -/
theorem due_mark (p : Place) (i now : ℕ) (o : OutboxRow) :
    (o.mark p i now).due now = true ↔ o.due now = true ∧ ¬ (o.id = i ∧ o.place = p) := by
  unfold OutboxRow.mark
  split
  · rename_i hrow
    refine ⟨fun hdue => ?_, fun h => absurd hrow h.2⟩
    exact absurd (due_published hdue rfl) (Nat.not_lt.2 (Nat.le_add_right _ _))
  · rename_i hrow
    exact ⟨fun hdue => ⟨hdue, hrow⟩, And.left⟩

/-- How many rows a call of `Dispatch` finds due. -/
def State.dueRows (s : State) : ℕ :=
  s.mysql.store.jobOutbox.countP fun o =>
    o.due s.mysql.clock && decide (s.mysql.locks (.out o.place) = none)

/-- A row that was visited is not due any more. -/
theorem Visits.dueRows_lt {o : OutboxRow} (h : Visits cfg d o s s')
    (ho : nextDue s.mysql.clock s.mysql.store (fun k => s.mysql.locks k = none) = some o) :
    s'.dueRows < s.dueRows := by
  obtain ⟨hmem, hdue, hfree⟩ := nextDue_some ho
  unfold State.dueRows
  rw [h.clock, h.locks]
  rcases h.visit with ⟨-, -, hstore⟩ | ⟨-, -, hstore⟩
  · rw [hstore, Tables.outbox_markOutbox, List.countP_map]
    refine Redis.countP_lt (fun q _ hq => ?_) hmem (by rw [hdue, hfree]; rfl) ?_
    · simp only [Function.comp_apply, OutboxRow.mark_place, Bool.and_eq_true, due_mark] at hq ⊢
      exact ⟨hq.1.1, hq.2⟩
    · rw [Function.comp_apply, Bool.and_eq_false_iff, ← Bool.not_eq_true, due_mark]
      exact .inl fun hmarked => hmarked.2 ⟨rfl, rfl⟩
  · rw [hstore, Tables.outbox_deleteOutbox, List.countP_filter]
    exact Redis.countP_lt (fun q _ hq => (Bool.and_eq_true _ _ ▸ hq).1) hmem
      (by rw [hdue, hfree]; rfl) (by simp)

/-- Where a call of `Dispatch` visits a row, the job stays ripe. -/
theorem Ripe.visits {o : OutboxRow} (hr : Ripe cfg p w x s) (h : Visits cfg d o s s') :
    Ripe cfg p w x s' := by
  obtain ⟨es, hes⟩ := h.onward
  refine ⟨hes.reached hr.reached, h.workers ▸ hr.worker, hr.up, hr.going, hr.idle,
    h.locks ▸ hr.free, ?_⟩
  obtain ⟨r, hrow, hclaim⟩ := hr.row
  refine ⟨r, ?_, h.clock ▸ hclaim⟩
  rcases h.visit with ⟨-, -, hstore⟩ | ⟨-, -, hstore⟩ <;> rw [hstore] <;> exact hrow

/-- The next call of `Dispatch` publishes the place, or visits another row. -/
theorem Poised.next (h : Poised cfg p w x d s) : ∃ s', (∃ es, Onward cfg s es s') ∧
    ((Ripe cfg p w x s' ∧ ∃ e n, e.values = encode p ∧ s'.stream.Unread e n) ∨
      Poised cfg p w x d s' ∧ s'.dueRows < s.dueRows) := by
  obtain ⟨q, hq, hdue⟩ := h.due
  obtain ⟨r, hrow, hclaim⟩ := h.row
  have hqp := Tables.out?_place hq
  cases ho : nextDue s.mysql.clock s.mysql.store (fun k => s.mysql.locks k = none) with
  | none =>
    -- The place itself is due.
    rw [nextDue, List.argmin_eq_none] at ho
    refine absurd (List.filter_eq_nil_iff.1 ho q (Tables.out?_mem hq)) (not_not.2 ?_)
    rw [hdue, hqp]
    exact decide_eq_true h.open_
  | some o =>
    have hmem := (nextDue_some ho).1
    obtain ⟨job, hjob⟩ : ∃ job, s.mysql.store.job? o.place.jobId = some job := by
      cases hjob : s.mysql.store.job? o.place.jobId with
      | some job => exact ⟨job, rfl⟩
      | none =>
        have hnil : s.mysql.store.outboxOf o.place.jobId = [] :=
          ((h.reached.kept.sound o.place.jobId).absent hjob).2
        have hout := (s.mysql.store.mem_outboxOf).2 ⟨hmem, rfl⟩
        rw [hnil] at hout
        exact absurd hout List.not_mem_nil
    obtain ⟨s', hv⟩ := visited cfg h.dispatcher (h.reached.kept.fresh h.reached.paired) ho hjob
    refine ⟨s', hv.onward, ?_⟩
    have hripe := h.toRipe.visits hv
    by_cases hop : o.place = p
    · refine .inl ⟨hripe, ?_⟩
      have hlive : s.mysql.store.live p = true := by
        simp only [Tables.live, hrow, Option.any_some, decide_eq_true_eq]
        exact ⟨hclaim.generation_eq, hclaim.live⟩
      rcases hv.visit with ⟨-, hstream, -⟩ | ⟨hover, -⟩
      · obtain ⟨n, hn⟩ := h.reached.stream.unread h.group (encode p)
        exact ⟨_, n, rfl, by rw [hstream, hop]; exact hn⟩
      · rw [hop, hlive] at hover
        cases hover
    -- The place stays due, and one row less is.
    · refine .inr ⟨⟨hripe, hv.dispatcher, ?_, hv.locks ▸ h.open_, q, ?_, hv.clock ▸ hdue⟩,
        hv.dueRows_lt ho⟩
      · rcases hv.visit with ⟨-, hstream, -⟩ | ⟨-, hstream, -⟩ <;> rw [hstream]
        · rw [Redis.group_xadd]
          exact h.group
        · exact h.group
      · rcases hv.visit with ⟨-, -, hstore⟩ | ⟨-, -, hstore⟩ <;> rw [hstore]
        · rw [Tables.out?_markOutbox, hq, Option.map_some, OutboxRow.mark,
            if_neg fun hrow => hop (hrow.2.symm.trans hqp)]
        · rw [Tables.out?_deleteOutbox, if_neg fun hpo => hop hpo.symm, hq]

/-- The calls of `Dispatch` come to publish the place. -/
theorem Poised.published (h : Poised cfg p w x d s) : ∃ s', (∃ es, Onward cfg s es s') ∧
    Ripe cfg p w x s' ∧ ∃ e n, e.values = encode p ∧ s'.stream.Unread e n := by
  -- By induction on the rows that are due.
  induction hn : s.dueRows using Nat.strong_induction_on generalizing s with
  | _ n ih =>
    obtain ⟨s₁, ⟨es₁, hes₁⟩, hdone | ⟨hposed, hlt⟩⟩ := h.next
    · exact ⟨s₁, ⟨es₁, hes₁⟩, hdone⟩
    · obtain ⟨s₂, ⟨es₂, hes₂⟩, hend⟩ := ih s₁.dueRows (hn ▸ hlt) hposed rfl
      exact ⟨s₂, ⟨_, hes₁.trans hes₂⟩, hend⟩

/-! ### The claim -/

/-- A transaction that has come to its last two statements, and writes to the job. -/
theorem writes_alone (cfg : Config) {sid : Sid} {t : State} (hin : sid.inner) {op : Op} {c u : ℕ}
    {f : ℕ → JobUpdate} {fromStatus : Option JobStatus} {toStatus : JobStatus} {message : String}
    {owner : Option WorkerId} {a : Answer}
    (hsolo : Server.Solo s.mysql sid ⟨op, c, u, true,
      updateJob p.jobId f (insertLog p.jobId fromStatus toStatus message owner (.commit a)), []⟩
      t.mysql)
    (hfree : s.mysql.locks (.job p.jobId) = none) : ∃ t' es now l, Onward cfg t es t' ∧
      .closed sid (.committed op a) ∈ es ∧
      t'.mysql.store = (s.mysql.store.apply (.updateJob p.jobId (f now))).apply (.insertLog l) := by
  have hkeys : ∀ k ∈ [Key.job p.jobId], s.mysql.locks k = none :=
    fun k hk => List.mem_singleton.1 hk ▸ hfree
  obtain ⟨m₁, e₁, -, hx₁, hsolo₁⟩ := hsolo.stmt rfl hkeys
  obtain ⟨m₂, e₂, -, hx₂, hsolo₂⟩ := hsolo₁.stmt rfl hkeys
  obtain ⟨m₃, hc, hafter⟩ := hsolo₂.commit rfl
  obtain ⟨t', es, hs, hstore, -⟩ := close_step (s := { t with mysql := m₂ }) cfg hc
  refine ⟨t', _, e₁.now,
    ⟨e₂.serial, p.jobId, fromStatus, toStatus, message, owner, seconds e₂.now⟩,
    ((Onward.exec cfg hin hx₁).trans (Onward.exec (s := { t with mysql := m₁ }) cfg hin hx₂)).step
      (.commit hin) hs, ?_, ?_⟩
  · exact List.mem_append_right _ List.mem_cons_self
  · rw [hstore, hafter.store]
    rfl

/-- A claim of the job, with nobody else at work, claims it, or declares it dead. -/
theorem claim_heals {sid : Sid} {t : State} (hin : sid.inner) {c : ℕ}
    (hsolo : Server.Solo s.mysql sid ⟨.claim p.jobId p.generation w, c, s.mysql.clock, true,
      claim cfg.lease p.jobId p.generation w, []⟩ t.mysql)
    (hfree : s.mysql.locks (.job p.jobId) = none) {r : JobRow}
    (hrow : s.mysql.store.job? p.jobId = some r) (hclaim : r.Claimable p.generation s.mysql.clock)
    (hmax : r.maxRetries ≤ 10) : t.Heals cfg p.jobId := by
  have hkeys : ∀ k ∈ [Key.job p.jobId], s.mysql.locks k = none :=
    fun k hk => List.mem_singleton.1 hk ▸ hfree
  obtain ⟨m₁, e₁, hnow, hx₁, hsolo₁⟩ := hsolo.stmt rfl hkeys
  have hread := Onward.exec cfg hin hx₁
  simp only [applyAll_nil, hrow, hnow, List.append_nil] at hsolo₁
  rw [if_neg (not_or.2 ⟨not_not.2 hclaim.generation_eq, hclaim.live⟩), if_neg hclaim.inactive,
    if_neg (by simp [hclaim.not_early])] at hsolo₁
  by_cases hbudget : r.maxRetries + 1 ≤ r.attemptCount
  -- No attempt is left: the job is declared dead.
  · rw [if_pos hbudget] at hsolo₁
    obtain ⟨t', es, now, l, hes, -, hstore⟩ :=
      writes_alone (t := { t with mysql := m₁ }) cfg hin hsolo₁ hfree
    refine hread.heals ⟨es, t', hes, .inr ⟨r.bury now, ?_, .inr rfl⟩⟩
    rw [hstore, Tables.job?_insertLog, Tables.job?_updateJob, if_pos rfl, hrow]
    rfl
  · rw [if_neg hbudget, if_neg (by rw [maxInt]; omega)] at hsolo₁
    obtain ⟨t', es, -, -, hes, hmem, -⟩ :=
      writes_alone (t := { t with mysql := m₁ }) cfg hin hsolo₁ hfree
    exact hread.heals ⟨es, t', hes, .inl ⟨sid, _, w, _, hmem⟩⟩

/-! ### The consumer loop -/

variable {y : Worker} {e q : Redis.Entry Message} {n : ℕ}

theorem JobRow.Claimable.wait {r : JobRow} {g t t' : ℕ} (h : r.Claimable g t) (ht : t ≤ t') :
    r.Claimable g t' := by
  refine ⟨h.generation_eq, h.live, fun hactive => h.inactive ⟨hactive.1, ?_⟩, ?_⟩
  · have hlater := hactive.2
    simp only [JobRow.active, Option.any_eq_true, decide_eq_true_eq] at hlater ⊢
    obtain ⟨u, hu, hlt⟩ := hlater
    exact ⟨u, hu, Nat.lt_of_le_of_lt ht hlt⟩
  · have hearly := h.not_early
    simp only [JobRow.early, decide_eq_false_iff_not, Nat.not_lt] at hearly ⊢
    exact Nat.le_trans hearly ht

theorem Ripe.eases (hr : Ripe cfg p w x s) (h : Eases cfg s s')
    (hstore : s'.mysql.store = s.mysql.store) (hclock : s.mysql.clock ≤ s'.mysql.clock)
    (hw : s'.workers w = some x') (hup : x'.up = true) (hgo : x'.stopping = false)
    (hidle : x'.phase = .idle) : Ripe cfg p w x' s' := by
  obtain ⟨r, hrow, hclaim⟩ := hr.row
  exact ⟨h.reached hr.reached, hw, hup, hgo, hidle, h.free hr.free, r, hstore ▸ hrow,
    hclaim.wait hclock⟩

/-- A step of the worker in which it reads nothing new. -/
theorem Ripe.act (hr : Ripe cfg p w x s) {b : WorkerAct} (hb : b.works = true) {fx : Effects}
    (hx : x.act cfg s w b = some (x', fx)) (hup : x'.up = true) (hgo : x'.stopping = false)
    (hidle : x'.phase = .idle) : ∃ s', (∃ es, Onward cfg s es s') ∧ Ripe cfg p w x' s' ∧
      s'.stream = fx.stream.getD s.stream := by
  have h := Eases.act hr.worker hr.up hx hb
  have hkeep : (s.affect cfg fx).mysql.store = s.mysql.store ∧
    (s.affect cfg fx).mysql.clock = s.mysql.clock ∧ _ := affect_store fx
  exact ⟨_, h.onward, hr.eases h hkeep.1 (Nat.le_of_eq hkeep.2.1.symm)
    (Function.update_self _ _ _) hup hgo hidle, rfl⟩

/-- What is handled leaves the worker idle, or claims a job. -/
theorem handle_cases (cfg : Config) (s : State) (w : WorkerId) (y : Worker)
    (q : Redis.Entry Message) : (y.handle cfg s w q).1 = { y with phase := .idle } ∨
      ∃ h sid, (y.handle cfg s w q).1 = { y with phase := .claiming h sid } := by
  unfold Worker.handle
  split
  · exact .inl rfl
  · exact .inr ⟨_, _, rfl⟩

/-- A step of the worker in which it reads a message, which it gives up. -/
theorem Ripe.skip (hr : Ripe cfg p w x s) {b : WorkerAct} (hb : b.works = true) {fx : Effects}
    (hx : x.act cfg s w b = some ((y.handle cfg s w q).1, fx)) (hup : y.up = true)
    (hgo : y.stopping = false) : ∃ s', (∃ es, Onward cfg s es s') ∧
      Ripe cfg p w { y with phase := .idle } s' ∧ s'.stream = fx.stream.getD s.stream := by
  rcases handle_cases cfg s w y q with hidle | ⟨h, sid, hclaiming⟩
  · rw [hidle] at hx
    exact hr.act hb hx hup hgo rfl
  · rw [hclaiming] at hx
    have h₁ := Eases.act hr.worker hr.up hx hb
    have hkeep : (s.affect cfg fx).mysql.store = s.mysql.store ∧
      (s.affect cfg fx).mysql.clock = s.mysql.clock ∧ _ := affect_store fx
    obtain ⟨s₂, h₂, hw₂⟩ :=
      dismissed (h₁.reached hr.reached) (Function.update_self _ _ _) hup rfl
    have hall := h₁.trans h₂.toEases
    exact ⟨s₂, hall.onward, hr.eases hall (h₂.store.trans hkeep.1)
      (Nat.le_trans (Nat.le_of_eq hkeep.2.1.symm) h₂.clock_le) hw₂ hup hgo rfl, h₂.stream⟩

theorem act_recover_nil (hp : x.point = .recovering []) (hidle : x.phase = .idle) :
    x.act cfg s w .recover =
      some ({ x with point := .reading, next := s.mysql.clock + cfg.recoveryInterval }, {}) := by
  obtain ⟨point, phase, cursor, next, stopping, up⟩ := x
  subst hp hidle
  rfl

theorem act_recover_cons {batch : List (Redis.Entry Message)}
    (hp : x.point = .recovering (q :: batch)) (hidle : x.phase = .idle)
    (hgo : x.stopping = false) : x.act cfg s w .recover =
      some (({ x with point := .recovering batch }.handle cfg s w q).1,
        ({ x with point := .recovering batch }.handle cfg s w q).2) := by
  obtain ⟨point, phase, cursor, next, stopping, up⟩ := x
  subst hp hidle hgo
  rfl

/-- A recovery comes to its end. -/
theorem Ripe.recovered {batch : List (Redis.Entry Message)} (hr : Ripe cfg p w x s)
    (hx : x.point = .recovering batch) : ∃ s' x', (∃ es, Onward cfg s es s') ∧
      Ripe cfg p w x' s' ∧ x'.point = .reading ∧ s'.stream = s.stream := by
  induction batch generalizing s x with
  | nil =>
    obtain ⟨s', ho, hr', hstream⟩ :=
      hr.act rfl (act_recover_nil hx hr.idle) hr.up hr.going hr.idle
    exact ⟨s', _, ho, hr', rfl, hstream⟩
  | cons q batch ih =>
    -- What was claimed back is given up, one message after the other.
    obtain ⟨s₁, ⟨es₁, ho₁⟩, hr₁, hstream₁⟩ :=
      hr.skip rfl (act_recover_cons hx hr.idle hr.going) hr.up hr.going
    rw [handle_stream] at hstream₁
    obtain ⟨s₂, x₂, ⟨es₂, ho₂⟩, hr₂, hpoint, hstream₂⟩ := ih hr₁ rfl
    exact ⟨s₂, x₂, ⟨_, ho₁.trans ho₂⟩, hr₂, hpoint, hstream₂.trans hstream₁⟩

theorem act_loop_early (hp : x.point = .top) (hidle : x.phase = .idle) (hgo : x.stopping = false)
    (hnext : s.mysql.clock < x.next) :
    x.act cfg s w (.loop true) = some ({ x with point := .reading }, {}) := by
  obtain ⟨point, phase, cursor, next, stopping, up⟩ := x
  subst hp hidle hgo
  simp only [Worker.act, if_pos hnext]
  rfl

theorem act_loop_recover (hp : x.point = .top) (hidle : x.phase = .idle) (hgo : x.stopping = false)
    (hnext : ¬ s.mysql.clock < x.next) {batch : List (Redis.Entry Message)} {cursor : ℕ}
    {key : Redis.Key Message WorkerId}
    (hclaim : s.stream.xautoclaim w s.mysql.clock cfg.recoveryIdle x.cursor 100 =
      some (batch, cursor, key)) : x.act cfg s w (.loop true) =
        some ({ x with point := .recovering batch, cursor := cursor }, { stream := some key }) := by
  obtain ⟨point, phase, cursor, next, stopping, up⟩ := x
  subst hp hidle hgo
  simp only at hclaim
  simp only [Worker.act, if_neg hnext, hclaim]
  rfl

/-- The loop comes to its reading. -/
theorem Ripe.reads (hr : Ripe cfg p w x s) (hn : s.stream.Unread e n) :
    ∃ s' x', (∃ es, Onward cfg s es s') ∧ Ripe cfg p w x' s' ∧ x'.point = .reading ∧
      s'.stream.Unread e n := by
  cases hx : x.point with
  | reading => exact ⟨s, x, ⟨_, .refl⟩, hr, hx, hn⟩
  | recovering batch =>
    obtain ⟨s', x', ho, hr', hpoint, hstream⟩ := hr.recovered hx
    exact ⟨s', x', ho, hr', hpoint, hstream ▸ hn⟩
  | top =>
    by_cases hnext : s.mysql.clock < x.next
    · obtain ⟨s', ho, hr', hstream⟩ :=
        hr.act rfl (act_loop_early hx hr.idle hr.going hnext) hr.up hr.going hr.idle
      exact ⟨s', _, ho, hr', rfl, hstream ▸ hn⟩
    -- A recovery is due first.
    · obtain ⟨batch, cursor, key, hclaim⟩ :=
        hn.recovers w s.mysql.clock cfg.recoveryIdle x.cursor 100
      obtain ⟨s₁, ⟨es₁, ho₁⟩, hr₁, hstream₁⟩ :=
        hr.act rfl (act_loop_recover hx hr.idle hr.going hnext hclaim) hr.up hr.going hr.idle
      obtain ⟨s₂, x₂, ⟨es₂, ho₂⟩, hr₂, hpoint, hstream₂⟩ := hr₁.recovered rfl
      refine ⟨s₂, x₂, ⟨_, ho₁.trans ho₂⟩, hr₂, hpoint, ?_⟩
      rw [hstream₂, hstream₁]
      exact hn.xautoclaim hclaim

theorem act_read (hp : x.point = .reading) (hidle : x.phase = .idle) (hgo : x.stopping = false)
    {key : Redis.Key Message WorkerId}
    (hread : s.stream.xreadgroup w s.mysql.clock = some (some q, key)) :
    x.act cfg s w (.read true) = some (({ x with point := .top }.handle cfg s w q).1,
      { ({ x with point := .top }.handle cfg s w q).2 with stream := some key }) := by
  obtain ⟨point, phase, cursor, next, stopping, up⟩ := x
  subst hp hidle hgo
  simp only [Worker.act, if_true, hread]
  rfl

/-- A worker that reads the place heals its job. -/
theorem Ripe.claims (hr : Ripe cfg p w x s) (he : e.values = encode p) (hx : x.point = .reading)
    {key : Redis.Key Message WorkerId}
    (hread : s.stream.xreadgroup w s.mysql.clock = some (some e, key)) :
    s.Heals cfg p.jobId := by
  obtain ⟨r, hrow, hclaim⟩ := hr.row
  have hsound := hr.reached.kept.sound p.jobId
  have hone : 1 ≤ p.generation := hclaim.generation_eq ▸ hsound.one_le r hrow
  have hmax : p.generation ≤ maxInt := hclaim.generation_eq ▸ hsound.le_maxInt r hrow
  have hdec : decode e.values = some (p.jobId, p.generation) :=
    he ▸ decode_encode hone (Nat.lt_of_le_of_lt hmax (by decide))
  have hact : x.act cfg s w (.read true) = some (_, _) := act_read hx hr.idle hr.going hread
  simp only [Worker.handle, hdec] at hact
  obtain ⟨es, ho⟩ := (Eases.act hr.worker hr.up hact rfl).onward
  have hsolo := Server.Solo.begin (Op.script cfg) (.claim p.jobId p.generation w)
    (hr.reached.kept.fresh hr.reached.paired (.worker w))
  have hin : (Sid.mk (.worker w) s.opened).inner := nofun
  exact ho.heals (claim_heals hin hsolo hr.free hrow hclaim (hr.reached.bounded hrow).2)

/-- The consumer loop reads up to the place, and heals the job. -/
theorem Ripe.heals (hr : Ripe cfg p w x s) (he : e.values = encode p) (hn : s.stream.Unread e n) :
    s.Heals cfg p.jobId := by
  -- By induction on the entries that are unread up to that of the place.
  induction n using Nat.strong_induction_on generalizing s x with
  | _ n ih =>
    obtain ⟨s₁, x₁, ⟨es₁, ho₁⟩, hr₁, hpoint, hn₁⟩ := hr.reads hn
    refine ho₁.heals ?_
    obtain ⟨q, key, hread, hq⟩ := hn₁.xreadgroup w s₁.mysql.clock
    rcases hq with rfl | ⟨m, hm, hkey⟩
    · exact hr₁.claims he hpoint hread
    · obtain ⟨s₂, ⟨es₂, ho₂⟩, hr₂, hstream₂⟩ :=
        hr₁.skip rfl (act_read hpoint hr₁.idle hr₁.going hread) hr₁.up hr₁.going
      refine ho₂.heals (ih m hm hr₂ ?_)
      rw [hstream₂]
      exact hkey

end Ripe

/-! ## What does not heal -/

/-- Where no step of the workers claims the job, or ends it, it does not heal. -/
theorem not_heals {cfg : Config} {id : JobId} {s : State} {P : State → Prop}
    (hstep : ∀ s s' a es, P s → Working s a → s.step cfg a = some (s', es) →
      P s' ∧ ¬ Reclaimed id es)
    (hlive : ∀ s, P s → ∃ r, s.mysql.store.job? id = some r ∧ ¬ r.terminal) (h : P s) :
    ¬ s.Heals cfg id := by
  have hrun {es : List Event} {s' : State} (ho : Onward cfg s es s') :
      P s' ∧ ¬ Reclaimed id es := by
    induction ho with
    | refl =>
      refine ⟨h, ?_⟩
      rintro ⟨_, _, _, _, hmem⟩
      exact absurd hmem List.not_mem_nil
    | step _ hw hs ih =>
      obtain ⟨hP, hno⟩ := hstep _ _ _ _ ih.1 hw hs
      refine ⟨hP, ?_⟩
      rintro ⟨sid, g, w, j, hmem⟩
      rcases List.mem_append.1 hmem with hmem | hmem
      · exact ih.2 ⟨sid, g, w, j, hmem⟩
      · exact hno ⟨sid, g, w, j, hmem⟩
  rintro ⟨es, s', ho, hclaimed | ⟨r', hr', hover⟩⟩
  · exact (hrun ho).2 hclaimed
  · obtain ⟨r, hr, hlive'⟩ := hlive s' (hrun ho).1
    obtain rfl := Option.some.inj (hr.symm.trans hr')
    exact hlive' hover

/-! ### Without a group -/

/-- There is no group, no worker has anything in hand, the workers do nothing in the database
    but dispatch, and the job is not over. -/
structure Stranded (cfg : Config) (id : JobId) (s : State) : Prop where
  kept : Kept cfg s.mysql
  group : s.stream.group = none
  idle : ∀ w x, s.workers w = some x → x.phase = .idle ∧ ∀ batch, x.point ≠ .recovering batch
  sessions : ∀ sid y, s.mysql.sessions sid = some y → sid.inner → y.op = .dispatch
  live : ∃ r, s.mysql.store.job? id = some r ∧ ¬ r.terminal

section Stranded

variable {cfg : Config} {s s' : State} {es : List Event} {w : WorkerId} {x x' : Worker} {d : ℕ}
  {id : JobId} {a : Action} {sid : Sid}

/-- Without a group, an idle worker goes round its loop, and that is all. -/
theorem act_stranded {b : WorkerAct} {fx : Effects} (hg : s.stream.group = none)
    (hidle : x.phase = .idle) (hpoint : ∀ batch, x.point ≠ .recovering batch)
    (hx : x.act cfg s w b = some (x', fx)) (hb : b.works = true) :
    fx = {} ∧ x'.phase = .idle ∧ ∀ batch, x'.point ≠ .recovering batch := by
  have hclaim (now minIdle start count : ℕ) :
      s.stream.xautoclaim w now minIdle start count = none := by
    simp only [Redis.Key.xautoclaim, hg]
  have hread (now : ℕ) : s.stream.xreadgroup w now = none := by
    simp only [Redis.Key.xreadgroup, hg]
  cases b with
  | loop =>
    simp only [Worker.act] at hx
    grind
  | recover =>
    simp only [Worker.act] at hx
    grind
  | read =>
    simp only [Worker.act] at hx
    grind
  | tick => simp [Worker.act, hidle] at hx
  | result => simp [Worker.act, hidle] at hx
  | settle => simp [Worker.act, hidle] at hx
  | ack => simp [Worker.act, hidle] at hx
  | expire => simp [Worker.act, hidle, Phase.handle?] at hx
  | _ => simp [WorkerAct.works] at hb

/-- A call of `Dispatch` leaves the row of the job alone. -/
theorem Change.dispatch_row {lease : ℕ} {lo hi : Env} {b : Answer} {v v' : JobView}
    (h : Change lease id lo hi .dispatch b v v') : v'.row = v.row := by
  cases h <;> rfl

/-- Answers change dispatchers only. -/
theorem Delivered.stranded {b : Option Answer} (hd : Delivered cfg s sid b s' es)
    (hin : sid.inner) (hidle : ∀ w x, s.workers w = some x → x.phase = .idle) :
    s'.mysql = s.mysql ∧ s'.workers = s.workers := by
  cases hd with
  | nobody => exact ⟨rfl, rfl⟩
  | worker _ hw hx => simp [Worker.returned, hidle _ _ hw] at hx
  | dispatcher => exact ⟨rfl, rfl⟩
  | call hparty => exact absurd hparty (hin _)

theorem Working.close_inner {how : Closing} (h : Working s (.close sid how)) : sid.inner := by
  cases h <;> assumption

theorem Working.giveUp_inner (h : Working s (.giveUp sid)) : sid.inner := by
  intro c hc
  cases h with
  | giveUp hover =>
    cases hover with
    | dispatch hparty => simp [hc] at hparty
    | delivery hparty => simp [hc, Party.client] at hparty

/-- Publishing brings the stream back, but not the group. -/
theorem Stranded.no_group (h : Stranded cfg id s) (hw : Working s a)
    (hst : Stepped cfg s a s' es) : s'.stream.group = none := by
  cases hst with
  | close _ hd => exact hd.stream ▸ h.group
  | giveUp _ hd =>
    rw [hd.stream, State.forsake]
    exact h.group
  | publish => exact (Redis.group_xadd _).trans h.group
  | worker hx _ hact =>
    cases hw with
    | worker _ hb =>
      obtain ⟨rfl, -⟩ := act_stranded h.group (h.idle _ _ hx).1 (h.idle _ _ hx).2 hact hb
      exact h.group
  | startWorker => cases hw
  | inject => cases hw
  | dropStream => cases hw
  | _ => exact h.group

theorem Stranded.no_work (h : Stranded cfg id s) (hw : Working s a)
    (hst : Stepped cfg s a s' es) :
    ∀ w x, s'.workers w = some x → x.phase = .idle ∧ ∀ batch, x.point ≠ .recovering batch := by
  have hidle := fun w x hx => (h.idle w x hx).1
  cases hst with
  | close _ hd =>
    rw [(hd.stranded hw.close_inner hidle).2]
    exact h.idle
  | giveUp _ hd =>
    rw [(hd.stranded hw.giveUp_inner hidle).2]
    exact h.idle
  | @worker v b x x' _ hx _ hact =>
    cases hw with
    | worker _ hb =>
      obtain ⟨-, hkeep⟩ := act_stranded h.group (hidle _ _ hx) (h.idle _ _ hx).2 hact hb
      intro w y hy
      by_cases hv : w = v
      · subst hv
        obtain rfl : x' = y := by simpa [State.setWorker] using hy
        exact hkeep
      · exact h.idle w y (by simpa [State.setWorker, hv] using hy)
  | startWorker => cases hw
  | _ => exact h.idle

theorem Stranded.dispatches (h : Stranded cfg id s) (hw : Working s a)
    (hst : Stepped cfg s a s' es) :
    ∀ sid y, s'.mysql.sessions sid = some y → sid.inner → y.op = .dispatch := by
  have hidle := fun w x hx => (h.idle w x hx).1
  intro sid' y hy hin
  cases hst with
  | exec hx =>
    obtain ⟨y', hy', hop, -⟩ := (exec_sessions hx).1 sid' y hy
    exact hop.trans (h.sessions sid' y' hy' hin)
  | publish _ hx =>
    obtain ⟨y', hy', hop, -⟩ := (answer_sessions hx).1 sid' y hy
    exact hop.trans (h.sessions sid' y' hy' hin)
  | publishLost _ hx =>
    obtain ⟨y', hy', hop, -⟩ := (answer_sessions hx).1 sid' y hy
    exact hop.trans (h.sessions sid' y' hy' hin)
  | close hx hd =>
    rw [(hd.stranded hw.close_inner hidle).1] at hy
    simp only [close_sessions hx, Function.update_apply] at hy
    split at hy
    · cases hy
    · exact h.sessions sid' y hy hin
  | @giveUp sid z _ _ hz hd =>
    rw [(hd.stranded hw.giveUp_inner hidle).1, State.forsake] at hy
    dsimp only at hy
    split at hy
    · exact h.sessions sid' y hy hin
    · obtain ⟨u, hu, hop, -⟩ := Server.leave_session hy
      exact hop.trans (h.sessions sid' u hu hin)
  | worker hx _ hact =>
    cases hw with
    | worker _ hb =>
      obtain ⟨rfl, -⟩ := act_stranded h.group (hidle _ _ hx) (h.idle _ _ hx).2 hact hb
      exact h.sessions sid' y hy hin
  | @dispatch e =>
    -- The only session that the workers open.
    by_cases hsid : sid' = ⟨.dispatcher e, s.opened⟩
    · subst hsid
      have hnew : (s.affect cfg { opens := some (.dispatcher e, .dispatch) }).mysql.sessions
        ⟨.dispatcher e, s.opened⟩ = some _ := affect_new _ rfl
      obtain rfl := Option.some.inj (hnew.symm.trans hy)
      rfl
    · exact h.sessions sid' y ((Function.update_of_ne hsid _ _).symm.trans hy) hin
  | startDispatcher => exact h.sessions sid' y hy hin
  | stopDispatcher => cases hw
  | crashDispatcher => cases hw
  | createJob => cases hw
  | requeueJob => cases hw
  | _ => exact h.sessions sid' y hy hin

/-- Only a call of `Dispatch` can commit. -/
theorem Stranded.not_over (h : Stranded cfg id s) (hw : Working s a)
    (hst : Stepped cfg s a s' es) :
    ∃ r, s'.mysql.store.job? id = some r ∧ ¬ r.terminal := by
  obtain ⟨r, hr, hlive⟩ := h.live
  rcases hst.view h.kept id with
    ⟨hsame, -⟩ | ⟨sid', _, _, op, _, _, _, rfl, -, hchange, -, -, y, hy, rfl, -⟩
  · exact ⟨r, (congrArg JobView.row hsame).trans hr, hlive⟩
  · refine ⟨r, ?_, hlive⟩
    rw [h.sessions sid' y hy hw.close_inner] at hchange
    exact hchange.dispatch_row.trans hr

/-- Whatever the workers do without a group, nothing is claimed. -/
theorem Stranded.step (h : Stranded cfg id s) (hw : Working s a)
    (hs : s.step cfg a = some (s', es)) : Stranded cfg id s' ∧ ¬ Reclaimed id es := by
  have hst := step_cases hs
  refine ⟨⟨(h.kept.life hst.steps).1, h.no_group hw hst, h.no_work hw hst, h.dispatches hw hst,
    h.not_over hw hst⟩, ?_⟩
  rintro ⟨sid', g, w', j, hmem⟩
  obtain ⟨how, db, rfl, hc, -⟩ := hst.closed_mem hmem
  obtain ⟨y, hy, hop, -⟩ := commit_session hc
  exact absurd ((h.sessions sid' y hy hw.close_inner).symm.trans hop) (by simp)

/-- Before anything was delivered, the workers have done nothing but dispatch. -/
theorem Run.undelivered {s₀ : State} (h : Run cfg s₀ es s) (h₀ : Initial s₀)
    (hno : es.filterMap Event.worker? = []) : (∀ w x, s.workers w = some x → x.phase = .idle) ∧
      ∀ sid y, s.mysql.sessions sid = some y → sid.inner → y.op = .dispatch := by
  induction h with
  | refl => exact ⟨by simp [h₀.workers], by simp [h₀.sessions]⟩
  | @step es es' s s' a h hs ih =>
    rw [List.filterMap_append, List.append_eq_nil_iff] at hno
    obtain ⟨hidle, hsessions⟩ := ih hno.1
    have hst := step_cases hs
    have hnone : ∀ e ∈ es', e.worker? = none := List.filterMap_eq_nil_iff.1 hno.2
    constructor
    · intro w x' hx'
      cases hst.turn hx' with
      | idle hw => exact hidle w x' hw
      | started _ hx => rw [hx]; rfl
      | acted hw hx =>
        have := hidle _ _ hw
        cases hx <;> simp_all [Event.worker?]
      | told _ hw hx =>
        have := hidle _ _ hw
        cases hx <;> simp_all
      | lost hw hx =>
        have := hidle _ _ hw
        cases hx <;> simp_all
    · intro sid y hy hin
      cases hst.continues (h.paired h₀) hy with
      | stays hy' hop => exact hop.trans (hsessions _ _ hy' hin)
      | runs _ hy' hop => exact hop.trans (hsessions _ _ hy' hin)
      | answered hy' hop => exact hop.trans (hsessions _ _ hy' hin)
      | opened _ _ _ hby =>
        generalize hparty : sid.party = party, y.op = op at hby
        cases hby with
        | claim he _ => exact absurd (hnone _ he) (by simp [Event.worker?])
        | finish hw hx _ => exact absurd ((hidle _ _ hw).symm.trans hx) (by simp)
        | renew hw hx => exact absurd ((hidle _ _ hw).symm.trans hx) (by simp)
        | dispatch => rfl
        | createJob | requeueJob | selectById | selectByRequestKey => exact absurd hparty (hin _)

theorem Stranded.not_heals (h : Stranded cfg id s) : ¬ s.Heals cfg id :=
  ScaleQueue.not_heals (fun _ _ _ _ h hw hs => h.step hw hs) (fun _ h => h.live) h

end Stranded

/-! ### With a request of the API in the way -/

/-- A request of the API holds the row of the job, which is not over. -/
structure Blocked (cfg : Config) (id : JobId) (sid : Sid) (s : State) : Prop where
  kept : Kept cfg s.mysql
  outer : ¬ sid.inner
  lock : s.mysql.locks (.job id) = some sid
  live : ∃ r, s.mysql.store.job? id = some r ∧ ¬ r.terminal

section Blocked

variable {cfg : Config} {s s' : State} {es : List Event} {id : JobId} {a : Action} {sid : Sid}

/-- The workers release their own locks only. -/
theorem Stepped.outer_locks (hst : Stepped cfg s a s' es) (hw : Working s a) (hout : ¬ sid.inner)
    {k : Key} (hk : s.mysql.locks k = some sid) : s'.mysql.locks k = some sid := by
  cases hst with
  | @exec sid' now db hx =>
    obtain ⟨x, keys, y, -, -, -, -, rfl, hex⟩ := Server.exec_inv hx
    have hne : sid ≠ sid' := fun heq => hout (heq ▸ hw.inner)
    exact (Server.goOn_locks hex.free hne k).2 hk
  | @close sid' how db c s' es hx hd =>
    rw [hd.mysql_eq.2.2]
    have hne : sid ≠ sid' := fun heq => hout (heq ▸ hw.close_inner)
    obtain ⟨t, rfl⟩ := Server.close_drop hx
    exact (Server.drop_locks hne t k).2 hk
  | giveUp _ hd => rwa [hd.mysql_eq.2.2, forsake_locks]
  | publish _ hx =>
    obtain ⟨_, _, _, -, -, rfl⟩ := Server.answer_cases hx
    exact hk
  | publishLost _ hx =>
    obtain ⟨_, _, _, -, -, rfl⟩ := Server.answer_cases hx
    exact hk
  | @worker _ _ _ _ fx => exact (affect_store fx).2.2.symm ▸ hk
  | @dispatch d => exact hk
  | crashDispatcher => cases hw
  | createJob => cases hw
  | requeueJob => cases hw
  | _ => exact hk

theorem Blocked.step (h : Blocked cfg id sid s) (hw : Working s a)
    (hs : s.step cfg a = some (s', es)) : Blocked cfg id sid s' ∧ ¬ Reclaimed id es := by
  have hst := step_cases hs
  -- Whoever commits on the job holds it.
  have hcommit {sid' : Sid} {how : Closing} {db : MySQL} {op : Op} {b : Answer}
      (ha : a = .close sid' how) (hc : s.mysql.close sid' how = some (db, .committed op b))
      (hop : op ≠ .dispatch) : about op b ≠ some id := by
    intro hid
    subst ha
    obtain ⟨y, hy, rfl, hrest⟩ := commit_session hc
    have hlock := h.kept.locked hy hrest hop hid
    rw [h.lock] at hlock
    obtain rfl := Option.some.inj hlock
    exact h.outer hw.close_inner
  refine ⟨⟨(h.kept.life hst.steps).1, h.outer, hst.outer_locks hw h.outer h.lock, ?_⟩, ?_⟩
  · obtain ⟨r, hr, hlive⟩ := h.live
    rcases hst.view h.kept id with
      ⟨hsame, -⟩ | ⟨sid', how, db, op, b, _, _, ha, hc, hchange, -⟩
    · exact ⟨r, (congrArg JobView.row hsame).trans hr, hlive⟩
    · have hop : op = .dispatch := by
        by_contra hop
        exact hcommit ha hc hop (hchange.about_eq outboxOf_jobId)
      subst hop
      refine ⟨r, ?_, hlive⟩
      exact hchange.dispatch_row.trans hr
  · rintro ⟨sid', g, w, j, hmem⟩
    obtain ⟨how, db, ha, hc, -⟩ := hst.closed_mem hmem
    exact hcommit ha hc nofun rfl

theorem Blocked.not_heals (h : Blocked cfg id sid s) : ¬ s.Heals cfg id :=
  ScaleQueue.not_heals (fun _ _ _ _ h hw hs => h.step hw hs) (fun _ h => h.live) h

end Blocked

/-! ## A lost stream -/

/-- From every state of running workers that has a consumer group, the workers can go on by
    themselves until a job that is pending or in progress is claimed again, or over, unless a
    request of the API is in the middle of a transaction on the row of the job. -/
theorem stream_heals_iff {cfg : Config} {s₀ s : State} {es : List Event} (h₀ : Initial s₀)
    (h : Run cfg s₀ es s) {id : JobId} (hnew : s₀.mysql.store.job? id = none) {r : JobRow}
    (hr : s.mysql.store.job? id = some r) (hst : r.status = .pending ∨ r.status = .processing)
    {w : WorkerId} {x : Worker} (hw : s.workers w = some x) (hup : x.up = true)
    (hgo : x.stopping = false) {d : ℕ} {y : Dispatcher} (hd : s.dispatchers d = some y)
    (hdup : y.up = true) (hdgo : y.stopping = false) (hgroup : s.stream.group.isSome) :
    s.Heals cfg id ↔ ∀ c n, s.mysql.locks (.job id) ≠ some ⟨.call c, n⟩ := by
  have hreach : s.Reached cfg id := ⟨s₀, es, h₀, hnew, h⟩
  have hlive : ¬ r.terminal := by
    rintro (hcom | hdead)
    · simp [hcom] at hst
    · simp [hdead] at hst
  constructor
  · rintro hheals c n hlock
    exact Blocked.not_heals ⟨hreach.kept, fun hin => hin c rfl, hlock, r, hr, hlive⟩ hheals
  · intro hcalls
    have hinner : ∀ sid, s.mysql.locks (.job id) = some sid → sid.inner :=
      fun sid hlock c hc => hcalls c sid.number (by rw [hlock, ← hc])
    obtain ⟨p, rfl, hgen, hout⟩ := hreach.listed hr hlive
    have hgoing : Going cfg p w d s := by
      obtain ⟨o, stopping, up⟩ := y
      refine ⟨hreach, ⟨x, hw, hup, hgo⟩, ⟨o, by simp_all⟩, hgroup, ?_, ⟨r, hr, hlive, hgen.symm⟩,
        hout⟩
      rintro k (rfl | rfl) sid hlock
      · exact hinner sid hlock
      · by_contra hout
        exact hout (hinner sid (h.leading h₀ hlock hout))
    -- The job falls due, its place is published, and the worker reads up to it.
    rcases hgoing.poised with hheals | ⟨s₁, x₁, h₁, hpoised⟩
    · exact hheals
    · obtain ⟨s₂, ⟨es₂, ho₂⟩, hripe, e, n, he, hn⟩ := hpoised.published
      exact h₁.heals (ho₂.heals (hripe.heals he hn))

/-- A worker process that starts after the stream was lost makes the first job heal. -/
theorem stream_heals_restarted :
    (State.after (creating 0 0 0 firstInput firstJob ++ [.startWorker "w", .startDispatcher 0] ++
      dispatching 0 2 0 ++ [.dropStream, .startWorker "v"])).1.Heals (.defaults id) firstJob := by
  have hfree : (State.after (creating 0 0 0 firstInput firstJob ++
      [.startWorker "w", .startDispatcher 0] ++ dispatching 0 2 0 ++
      [.dropStream, .startWorker "v"])).1.mysql.locks (.job firstJob) = none := rfl
  refine (stream_heals_iff .fresh (Run.play _ _ _) rfl rfl (.inl (by decide)) (w := "v") rfl rfl rfl
    (d := 0) rfl rfl rfl (by decide)).2 fun c n => ?_
  exact fun heq => absurd (hfree.symm.trans heq) nofun

/-- The first job is published, and the stream is lost: without a worker process that starts
    anew, the job, which is pending, is never claimed. -/
theorem stream_lost :
    let s := (State.after (creating 0 0 0 firstInput firstJob ++
      [.startWorker "w", .startDispatcher 0] ++ dispatching 0 2 0 ++ [.dropStream])).1
    (s.mysql.store.job? firstJob).map (·.status) = some .pending ∧
      s.workers "w" = some (.start 0) ∧ s.dispatchers 0 = some ⟨none, false, true⟩ ∧
      ¬ s.Heals (.defaults id) firstJob := by
  have hrun := Run.play (.defaults id) .fresh (creating 0 0 0 firstInput firstJob ++
      [.startWorker "w", .startDispatcher 0] ++ dispatching 0 2 0 ++ [.dropStream])
  obtain ⟨hidle, hsessions⟩ := hrun.undelivered .fresh (by decide)
  refine ⟨by decide, rfl, rfl, Stranded.not_heals ⟨hrun.kept .fresh, rfl, ?_, hsessions, ?_⟩⟩
  · refine fun v x hx => ⟨hidle v x hx, ?_⟩
    by_cases hv : v = "w"
    · subst hv
      obtain rfl : Worker.start 0 = x := Option.some.inj hx
      exact nofun
    · exact absurd ((Function.update_of_ne hv _ _).symm.trans hx) nofun
  · exact ⟨_, rfl, by decide⟩

end ScaleQueue
