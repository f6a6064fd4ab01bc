import ScaleQueue.Budget

/-!
# Requeues start new generations

A requeue takes a job that was declared dead to its next generation, and nothing
else does (`Life.generation`, `Life.buried`). What still carries an older
generation by then, a delivery, a `Renew` or a `Finish`, finds a row of another
generation and is refused (`Kept.outdated`).
-/

namespace ScaleQueue

open Locking

/-- The transaction declared the job dead. -/
def buries : Op × Answer → Bool
  | (.finish _ .dead _ _, _) => true
  | (.claim _ _ _, .noJob .exhausted) => true
  | _ => false

/-- The operation is about generation `g` of the job. -/
def Op.Carries (id : JobId) (g : ℕ) : Op → Prop
  | .claim id' g' _ => id' = id ∧ g' = g
  | .renew j => j.id = id ∧ j.generation = g
  | .finish j _ _ _ => j.id = id ∧ j.generation = g
  | _ => False

section Lives

variable {lease : ℕ} {id : JobId} {lo hi : Env} {op : Op} {a : Answer} {v₀ v v' : JobView}
  {t₀ t : ℕ} {h : List (Op × Answer)}

/-- A requeue increases the generation by one, and nothing else changes it. -/
theorem Change.generation (hc : Change lease id lo hi op a v v') {r : JobRow}
    (hr : v.row = some r) :
    ∃ r', v'.row = some r' ∧ r'.generation = r.generation + requeues [(op, a)] := by
  cases hc with
  | created => cases hr
  | published => exact ⟨r, hr, rfl⟩
  | dropped => exact ⟨r, hr, rfl⟩
  | _ =>
    obtain rfl := Option.some.inj hr
    exact ⟨_, rfl, rfl⟩

theorem Life.generation (hl : Life lease id v₀ t₀ h v t) {r₀ : JobRow} (hr₀ : v₀.row = some r₀) :
    ∃ r, v.row = some r ∧ r.generation = r₀.generation + requeues h := by
  induction hl with
  | start => exact ⟨r₀, hr₀, rfl⟩
  | wait _ _ ih => exact ih
  | change _ hc _ ih =>
    obtain ⟨r, hr, hgen⟩ := ih
    obtain ⟨r', hr', hgen'⟩ := hc.generation hr
    exact ⟨r', hr', by rw [hgen', hgen, requeues_append, Nat.add_assoc]⟩

/-- A job that was requeued and not declared dead since is neither dead nor failed. -/
theorem Life.unburied (hl : Life lease id v₀ t₀ h v t) {h₁ h₂ : List (Op × Answer)}
    (heq : h = h₁ ++ (.requeueJob id, .done) :: h₂) (hh₂ : ∀ x ∈ h₂, buries x = false) :
    ∀ r ∈ v.row, r.status ≠ .dead ∧ r.status ≠ .failed := by
  induction hl generalizing h₂ with
  | start => simp at heq
  | wait _ _ ih => exact ih heq hh₂
  | @change h v v' t lo hi op a _ hc _ ih =>
    intro r' hr'
    rcases List.eq_nil_or_concat h₂ with rfl | ⟨l, y, rfl⟩
    · -- The requeue has just been committed.
      obtain ⟨-, hx⟩ := List.append_inj' heq rfl
      obtain ⟨rfl, rfl⟩ : op = .requeueJob id ∧ a = .done := by simpa using hx
      cases hc
      obtain rfl := Option.some.inj hr'
      simp [JobRow.requeue]
    · obtain ⟨rfl, rfl⟩ : h = h₁ ++ (.requeueJob id, .done) :: l ∧ (op, a) = y := by
        have : h ++ [(op, a)] = (h₁ ++ (.requeueJob id, .done) :: l) ++ [y] := by simpa using heq
        exact ⟨(List.append_inj' this rfl).1, by simpa using (List.append_inj' this rfl).2⟩
      have hv := ih rfl fun x hx => hh₂ x (by simp [hx])
      have hlast := hh₂ (op, a) (by simp)
      cases hc with
      | claimed =>
        obtain rfl := Option.some.inj hr'
        simp [JobRow.claim]
      | exhausted => cases hlast
      | @renewed _ r =>
        obtain rfl := Option.some.inj hr'
        exact hv r rfl
      | @finished _ e =>
        obtain rfl := Option.some.inj hr'
        cases e <;> simp_all [JobRow.finish, Ending.status, buries]
      | retried =>
        obtain rfl := Option.some.inj hr'
        simp [JobRow.finish]
      | published => exact hv _ hr'
      | dropped => exact hv _ hr'
      | created =>
        obtain rfl := Option.some.inj hr'
        simp [NewJob.row]
      | requeued =>
        obtain rfl := Option.some.inj hr'
        simp [JobRow.requeue]

/-- Between two requeues a job is declared dead. -/
theorem Life.buried (hl : Life lease id v₀ t₀ h v t) {h₁ mid h₂ : List (Op × Answer)}
    (heq : h = h₁ ++ (.requeueJob id, .done) :: mid ++ (.requeueJob id, .done) :: h₂) :
    ∃ x ∈ mid, buries x = true := by
  induction hl generalizing h₂ with
  | start => simp at heq
  | wait _ _ ih => exact ih heq
  | @change h v v' t lo hi op a hl' hc _ ih =>
    rcases List.eq_nil_or_concat h₂ with rfl | ⟨l, y, rfl⟩
    · obtain ⟨rfl, hx⟩ := List.append_inj' heq rfl
      obtain ⟨rfl, rfl⟩ : op = .requeueJob id ∧ a = .done := by simpa using hx
      by_contra hno
      have hlive := hl'.unburied rfl fun x hx =>
        Bool.eq_false_of_not_eq_true fun hb => hno ⟨x, hx, hb⟩
      cases hc with
      | requeued _ hstatus =>
        exact hstatus.elim (hlive _ rfl).1 (hlive _ rfl).2
    · have : h ++ [(op, a)] =
          (h₁ ++ (.requeueJob id, .done) :: mid ++ (.requeueJob id, .done) :: l) ++ [y] := by
        simpa using heq
      exact ih (List.append_inj' this rfl).1

end Lives

section Steps

variable {cfg : Config} {s s' : State} {sid : Sid}

/-- What carries another generation than the row commits nothing. -/
theorem Kept.outdated {m m' : MySQL} (hk : Kept cfg m) {how : Closing} {c : Closed Answer Op}
    {y : Conn} {id : JobId} {g : ℕ} {r : JobRow} (hr : m.store.job? id = some r)
    (hg : r.generation ≠ g) (hc : m.close sid how = some (m', c)) (hy : m.sessions sid = some y)
    (hop : y.op.Carries id g) : m'.store = m.store := by
  have hrow {logs : List LogRow} {out : List OutboxRow} {q : JobRow}
      (hv : m.store.view id = ⟨some q, logs, out⟩) : q = r :=
    Option.some.inj ((congrArg JobView.row hv).symm.trans hr)
  obtain ⟨x, hx, ⟨a, -, rfl, -⟩ | ⟨a, -, -, rfl⟩ | ⟨-, rfl⟩⟩ := Server.close_cases hc
  · obtain rfl := Option.some.inj (hx.symm.trans hy)
    rcases hk.commit hc with ⟨hsame, -⟩ | ⟨id', lo, hi, hchange, -⟩
    · exact hsame
    · exfalso
      generalize hv : m.store.view id' = v at hchange
      generalize m'.store.view id' = v' at hchange
      generalize x.op = op at hop hchange
      cases hchange with
      | claimed hid hclaim =>
        obtain ⟨rfl, rfl⟩ := hop
        obtain rfl := hrow hv
        exact hg hclaim.generation_eq
      | exhausted hid hclaim =>
        obtain ⟨rfl, rfl⟩ := hop
        obtain rfl := hrow hv
        exact hg hclaim.generation_eq
      | renewed hid hj hown =>
        obtain ⟨hid', rfl⟩ := hop
        obtain rfl := hrow ((hid'.symm.trans hj) ▸ hv)
        exact hg (ownedBy_iff.1 hown).1
      | finished hid hj he hown =>
        obtain ⟨hid', rfl⟩ := hop
        obtain rfl := hrow ((hid'.symm.trans hj) ▸ hv)
        exact hg (ownedBy_iff.1 hown).1
      | retried hid hj hown =>
        obtain ⟨hid', rfl⟩ := hop
        obtain rfl := hrow ((hid'.symm.trans hj) ▸ hv)
        exact hg (ownedBy_iff.1 hown).1
      | published => exact hop
      | dropped => exact hop
      | created => exact hop
      | requeued => exact hop
  · rfl
  · rfl

/-- A handler is only called for the generation of the row. -/
theorem Run.started_generation {s₀ : State} {es es' : List Event} (h : Run cfg s₀ es s)
    (h₀ : Initial s₀) {a : Action} (hs : s.step cfg a = some (s', es')) {w : WorkerId} {n : ℕ}
    {j : Job} (hj : .started w n j ∈ es') {r : JobRow} (hr : s.mysql.store.job? j.id = some r) :
    j.generation = r.generation := by
  have hk := h.kept h₀
  have hstep := step_cases hs
  have hpos : 0 < claimsIn j.generation (history j.id (closings es')) := by
    refine Nat.lt_of_lt_of_le ?_ (hstep.started hk (h.paired h₀) j.id j.generation)
    exact List.countP_pos_iff.2 ⟨_, hj, by simp [Event.startsIn]⟩
  have hrow : (s.mysql.store.view j.id).row = some r := hr
  rcases hstep.view hk j.id with ⟨-, hnil⟩ | ⟨_, _, _, _, _, _, _, -, -, hchange, hone, -⟩
  · simp [hnil] at hpos
  · rw [hone] at hpos
    generalize s.mysql.store.view j.id = v at hchange hrow
    generalize s'.mysql.store.view j.id = v' at hchange
    cases hchange with
    | claimed =>
      obtain rfl := Option.some.inj hrow
      by_contra hne
      simp [JobRow.toJob, Ne.symm hne] at hpos
    | _ => simp [claimsIn, claims, claimed?] at hpos

/-- A call only answers so when its requeue returned an error. -/
theorem proceed_rejected {n c c' : ℕ} {x x' : Call} {a : Option Answer} {fx : Effects}
    {r : Response}
    (h : Call.proceed n c x a = (x', fx)) (hr : r = .notFound ∨ r = .notRequeueable)
    (hmem : .responded c' r ∈ fx.events) :
    c' = c ∧ ∃ id sid e, x = .requeueing id sid ∧ a = some (.error e) := by
  cases proceed_cases h with
  | notFound | notRequeueable =>
    obtain ⟨rfl, -⟩ := Event.responded.inj (List.mem_singleton.1 hmem)
    exact ⟨rfl, _, _, _, rfl, rfl⟩
  | _ => rcases hr with rfl | rfl <;> simp at hmem

/-- A requeue that the API rejects was that of the call, and was rolled back. -/
theorem Stepped.rejected {a : Action} {es : List Event} (h : Stepped cfg s a s' es)
    (hk : Kept cfg s.mysql) (hp : Paired none s) {c : ℕ} {r : Response}
    (hr : r = .notFound ∨ r = .notRequeueable) (hmem : .responded c r ∈ es) :
    s'.mysql.store = s.mysql.store ∧
      ∃ sid jobId b, sid.party = .call c ∧ s.calls c = some (.requeueing jobId sid) ∧
        .closed sid (.aborted (.requeueJob jobId) b) ∈ es := by
  cases h with
  | @close sid how db k _ es hc hd =>
    obtain ⟨db', c', hc', -, hstore⟩ := Stepped.closing (.close hc hd)
    obtain ⟨rfl, rfl⟩ := Prod.mk.inj (Option.some.inj (hc.symm.trans hc'))
    have hmem : .responded c r ∈ es := by simpa using hmem
    cases hd with
    | nobody => simp at hmem
    | worker _ _ hx =>
      have := (returned_cases hx).worker _ hmem
      cases this
    | dispatcher => simp at hmem
    | @call n x _ _ hparty hx hsid hgo =>
      obtain ⟨rfl, id, sid', e, rfl, ha⟩ := proceed_rejected hgo hr hmem
      obtain rfl : sid' = sid := Option.some.inj hsid
      -- The call has waited for a requeue, which did not commit.
      obtain ⟨y, hy, z, hz, hwait⟩ := (hp.waited (.call c) sid' (.requeueJob id)
        ⟨_, hx, .requeueing⟩).resolve_left (by simp)
      obtain rfl := Option.some.inj (hx.symm.trans hz)
      generalize hop : y.op = op at hwait
      cases hwait
      rcases hk.ends hc hy hop (fun _ => rfl) with
        ⟨b, lo, hi, rfl, hchange, -⟩ | ⟨b, hi, rfl, hsame, -⟩ | ⟨rfl, -⟩
      · exfalso
        obtain rfl := Option.some.inj ha
        generalize s.mysql.store.view id = v at hchange
        generalize db.store.view id = v' at hchange
        cases hchange
      · exact ⟨hstore.trans hsame, sid', id, b, hparty, hx, List.mem_cons_self⟩
      · cases ha
  | giveUp _ hd =>
    cases hd with
    | nobody => simp at hmem
    | worker _ _ hx =>
      have := (returned_cases hx).worker _ hmem
      cases this
    | dispatcher => simp at hmem
    | call _ _ _ hgo =>
      obtain ⟨-, _, _, _, -, ha⟩ := proceed_rejected hgo hr hmem
      cases ha
  | worker _ _ hx =>
    have := (act_cases hx).worker _ hmem
    cases this
  | badKey => rcases hr with rfl | rfl <;> simp at hmem
  | _ => simp at hmem

end Steps

/-! ## Requeues -/

/-- In every run, the generation of a job counts its requeues; between two of them
    it was declared dead; a requeue resets the attempts and puts one row for the new
    generation into the outbox; one that is rejected changes nothing; and what
    carries an older generation by then changes nothing and calls no handler. -/
theorem replay_isolates {cfg : Config} {s₀ s : State} {es : List Event} (h₀ : Initial s₀)
    (h : Run cfg s₀ es s) (id : JobId) :
    (∀ r es' s', s.mysql.store.job? id = some r → Run cfg s es' s' →
      ∃ r', s'.mysql.store.job? id = some r' ∧
        r'.generation = r.generation + requeues (history id (closings es'))) ∧
    (∀ h₁ mid h₂, history id (closings es) =
        h₁ ++ (.requeueJob id, .done) :: mid ++ (.requeueJob id, .done) :: h₂ →
      ∃ x ∈ mid, buries x = true) ∧
    ∀ a s' es', s.step cfg a = some (s', es') →
      (∀ sid b, .closed sid (.committed (.requeueJob id) b) ∈ es' →
        ∃ r r' o, s.mysql.store.job? id = some r ∧ s'.mysql.store.job? id = some r' ∧
          r'.generation = r.generation + 1 ∧ r'.status = .pending ∧
          r'.attemptCount = 0 ∧ r'.retryCount = 0 ∧
          s'.mysql.store.outboxOf id = s.mysql.store.outboxOf id ++ [o] ∧
          o.place = ⟨id, r'.generation, 1⟩ ∧ Vacant o.place (s.mysql.store.outboxOf id)) ∧
      ((∀ sid op b, .closed sid (.committed op b) ∉ es') → s'.mysql.store = s.mysql.store) ∧
      (∀ c r, .responded c r ∈ es' → r = .notFound ∨ r = .notRequeueable →
        s'.mysql.store = s.mysql.store ∧
          ∃ sid jobId b, sid.party = .call c ∧ s.calls c = some (.requeueing jobId sid) ∧
            .closed sid (.aborted (.requeueJob jobId) b) ∈ es') ∧
      (∀ r, s.mysql.store.job? id = some r →
        (∀ sid how y g, a = .close sid how → s.mysql.sessions sid = some y →
          y.op.Carries id g → r.generation ≠ g → s'.mysql.store = s.mysql.store) ∧
        ∀ w n j, .started w n j ∈ es' → j.id = id → j.generation = r.generation) := by
  have hk := h.kept h₀
  refine ⟨fun r es' s' hr h' => ?_, fun h₁ mid h₂ heq => (h.life h₀ id).buried heq, ?_⟩
  · exact ((hk.life h'.steps).2 id).generation hr
  intro a s' es' hstep
  have hs := step_cases hstep
  refine ⟨fun sid b hmem => ?_, fun hno => ?_, fun c r hmem hr => ?_, fun r hr => ⟨?_, ?_⟩⟩
  · have hmem : (.requeueJob id, b) ∈ history id (closings es') :=
      mem_history.2 ⟨⟨sid, mem_closings.2 hmem⟩, rfl⟩
    rcases hs.view hk id with ⟨-, hnil⟩ | ⟨_, _, _, op, c, lo, hi, -, -, hchange, hone, -⟩
    · simp [hnil] at hmem
    · obtain ⟨rfl, rfl⟩ : .requeueJob id = op ∧ b = c := by simpa [hone] using hmem
      generalize hv : s.mysql.store.view id = v at hchange
      generalize hv' : s'.mysql.store.view id = v' at hchange
      cases hchange with
      | @requeued r _ _ _ _ _ _ _ _ _ _ hvacant =>
        obtain rfl := congrArg JobView.outbox hv
        exact ⟨r, _, _, congrArg JobView.row hv, congrArg JobView.row hv', rfl, rfl, rfl, rfl,
          congrArg JobView.outbox hv', rfl, hvacant⟩
  · exact hs.steps.store_eq fun sid op b hmem => hno sid op b (mem_closings.1 hmem)
  · exact hs.rejected hk (h.paired h₀) hr hmem
  · intro sid how y g ha hy hop hg
    subst ha
    obtain ⟨db, c, hc, -, hstore⟩ := hs.closing
    exact hstore.trans (hk.outdated hr hg hc hy hop)
  · intro w n j hmem hj
    subst hj
    exact h.started_generation h₀ hstep hmem hr

/-- The first job fails for good, is requeued, and is in its second generation. -/
theorem replay_isolates_first :
    let run := State.after (firstClaim ++ finishing "w" 4 0 (.failed "no" true))
    let again := run.1.play (.defaults id) (requeueing 1 5 0 firstJob)
    ∃ r', again.1.mysql.store.job? firstJob = some r' ∧
      r'.generation = 1 + requeues (history firstJob (closings again.2)) ∧ r'.generation = 2 := by
  obtain ⟨r', hr', hgen⟩ := (replay_isolates .fresh (Run.play _ _ _) firstJob).1 _ _ _ rfl
    (Run.play _ (State.after (firstClaim ++ finishing "w" 4 0 (.failed "no" true))).1
      (requeueing 1 5 0 firstJob))
  exact ⟨r', hr', hgen, hgen.trans (by decide)⟩

end ScaleQueue
