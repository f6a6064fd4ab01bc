import ScaleQueue.Downgrade
import ScaleQueue.Fates
import ScaleQueue.Listings

/-!
# Paging while the system runs

A client that pages through a listing asks for one page after the other, and while it does
jobs are created, claimed and finished. It sees every job that was there when it began, as
it was at the request for its page, unless a page ended between jobs with the same time:
new jobs may push a job back to a later page, but never to one that was shown already
(`skips_none`). This holds of `GET /jobs` by type (`listJobs_skips_none`), and of
`GET /jobs/dead` as long as no job is requeued (`listDeadJobs_skips_none`).
-/

/-! ## Rows that become more -/

namespace Paging

variable {α τ κ : Type} [LinearOrder κ] {key : τ → κ} {L m : ℕ} {rows out : ℕ → List τ}

/-- An answer, as an answer about some of the columns. -/
theorem Answers.map {f : α → τ} {rs o : List α} (h : Answers (fun a => key (f a)) rs o) :
    Answers key (rs.map f) (o.map f) :=
  ⟨h.perm.map f, List.pairwise_map.2 h.sorted⟩

theorem page_map (f : α → τ) (o : List α) (k : ℕ) : page L (o.map f) k = (page L o k).map f := by
  rw [page, page, List.map_take, List.map_drop]

theorem Clear.map {f : α → τ} {rs : List α} (h : Clear (fun a => key (f a)) L rs) :
    Clear key L (rs.map f) := by
  intro r hr k
  obtain ⟨a, ha, rfl⟩ := List.mem_map.1 hr
  rw [List.countP_map, List.countP_map]
  exact h a ha k

/-- If there are more and more rows, the pages up to an empty one show each row that was
    there at first. -/
theorem skips_none (hgrow : ∀ k < m, (rows k).Subperm (rows (k + 1)))
    (h : ∀ k ≤ m, Answers key (rows k) (out k)) (hclear : ∀ k < m, Clear key L (rows k))
    (hL : 0 < L) (hend : page L (out m) m = []) {r : τ} (hr : r ∈ rows 0) :
    ∃ k < m, r ∈ page L (out k) k := by
  -- Until its page comes, the row is behind the pages.
  have ahead (k : ℕ) (hk : k ≤ m) : r ∈ rows k ∧
      ((∃ i < k, r ∈ page L (out i) i) ∨ k * L ≤ (rows k).countP (key r < key ·)) := by
    induction k with
    | zero => exact ⟨hr, .inr (by omega)⟩
    | succ k ih =>
      obtain ⟨hmem, hseen⟩ := ih (Nat.le_of_succ_le hk)
      refine ⟨(hgrow k hk).subset hmem, ?_⟩
      obtain ⟨i, hi, hpage⟩ | hle := hseen
      · exact .inl ⟨i, Nat.lt_succ_of_lt hi, hpage⟩
      have hanswer := h k (Nat.le_of_succ_le hk)
      have hout : r ∈ out k := hanswer.perm.symm.subset hmem
      rw [← List.take_append_drop ((k + 1) * L) (out k), List.mem_append] at hout
      obtain htake | hdrop := hout
      · rw [Nat.succ_mul, List.take_add, List.mem_append] at htake
        obtain hbefore | hpage := htake
        · have hlt := hanswer.before_of_mem_take hbefore
          rw [before, decide_eq_true_eq] at hlt
          omega
        · exact .inl ⟨k, Nat.lt_succ_self k, hpage⟩
      · have hge := hanswer.not_before_of_mem_drop (hclear k hk) hdrop
        rw [before, decide_eq_false_iff_not, not_lt] at hge
        exact .inr (hge.trans ((hgrow k hk).countP_le _))
  obtain ⟨hmem, hseen | hle⟩ := ahead m le_rfl
  · exact hseen
  -- Behind the empty page there is no row.
  have hlt : (rows m).countP (key r < key ·) < (rows m).length := by
    refine Nat.lt_of_le_of_ne List.countP_le_length fun heq => ?_
    simpa using List.countP_eq_length.1 heq r hmem
  have hlen := (page_eq_nil hL (h m le_rfl)).1 hend
  omega

end Paging

namespace ScaleQueue

open Locking

/-! ## Listings of a system that runs -/

section Runs

variable {cfg : Config} {s₀ s s' : State} {es : List Event} {id : JobId} {lease : ℕ} {lo hi : Env}
  {op : Op} {a : Answer} {v v' : JobView}

theorem Change.createdAt (h : Change lease id lo hi op a v v') {r : JobRow}
    (hr : v.row = some r) : ∃ r', v'.row = some r' ∧ r'.createdAt = r.createdAt := by
  cases h with
  | published | dropped => exact ⟨r, hr, rfl⟩
  | created => cases hr
  | _ =>
    obtain rfl := Option.some.inj hr
    exact ⟨_, rfl, rfl⟩

/-- A job stays, with its type and the time of its creation. -/
theorem Life.stays {t₀ t : ℕ} {v₀ : JobView} {h : List (Op × Answer)}
    (hl : Life lease id v₀ t₀ h v t) {r : JobRow} (hr : v₀.row = some r) :
    ∃ r', v.row = some r' ∧ r'.createdAt = r.createdAt ∧ r'.type = r.type := by
  induction hl with
  | start => exact ⟨r, hr, rfl, rfl⟩
  | wait _ _ ih => exact ih
  | change _ hchange _ ih =>
    obtain ⟨q, hq, hcreated, htype⟩ := ih
    obtain ⟨r', hr', hcreated'⟩ := hchange.createdAt hq
    exact ⟨r', hr', hcreated'.trans hcreated, (hchange.same hq hr').1.trans htype⟩

/-- In a run from a state that was reached, too, what commits on a job is its life. -/
theorem Run.life_on {es₀ : List Event} (h : Run cfg s es s') (hpre : Run cfg s₀ es₀ s)
    (h₀ : Initial s₀) (id : JobId) :
    Life cfg.lease id (s.mysql.store.view id) s.mysql.clock (history id (closings es))
      (s'.mysql.store.view id) s'.mysql.clock :=
  ((hpre.kept h₀).life h.steps).2 id

theorem requeues_eq_zero (h : ∀ sid id a, .closed sid (.committed (.requeueJob id) a) ∉ es) :
    requeues (history id (closings es)) = 0 := by
  refine List.countP_eq_zero.2 fun ⟨op, a⟩ hmem => ?_
  obtain ⟨⟨sid, hsid⟩, -⟩ := mem_history.1 hmem
  cases op with
  | requeueJob id' => exact absurd (mem_closings.1 hsid) (h sid id' a)
  | _ => simp [isRequeue]

end Runs

/-- The jobs of the type. -/
def ofType (equal : String → String → Bool) (type : Option String) (s : State) : List JobRow :=
  s.mysql.store.jobs.filter ((pageQuery none type 1 0).matches equal)

/-- The jobs that `GET /jobs/dead` is about. -/
def dead (s : State) : List JobRow := s.mysql.store.jobs.filter (·.status = .dead)

/-- What of a job never changes, and places it in the listing. -/
def JobRow.stamp (r : JobRow) : JobId × ℕ := (r.id, r.createdAt)

section Pages

variable {cfg : Config} {equal : String → String → Bool} {L m : ℕ} {s₀ : State} {es₀ : List Event}
  {s : ℕ → State}

/-- The states in which the pages up to `m` are requested are reached one from the other. -/
theorem Run.pages (hpre : Run cfg s₀ es₀ (s 0)) (hrun : ∀ k < m, ∃ es, Run cfg (s k) es (s (k + 1)))
    (k : ℕ) (hk : k ≤ m) : ∃ es, Run cfg s₀ es (s k) := by
  induction k with
  | zero => exact ⟨es₀, hpre⟩
  | succ k ih =>
    obtain ⟨es, h⟩ := ih (Nat.le_of_succ_le hk)
    obtain ⟨es', h'⟩ := hrun k hk
    exact ⟨es ++ es', h.trans h'⟩

/-- A client that asks for the pages of `GET /jobs` by type, one after the other, until one
    is empty has seen every job of the type that was there when it began, as it was at the
    request for the page: unless, at a request, the end of a page was between such jobs that
    were created within the same second. The `total` of a page is counted later. -/
theorem listJobs_skips_none {type : Option String} {l : ℕ → Listing JobRow} (h₁ : 1 ≤ L)
    (h₂ : L ≤ 100) (h₀ : Initial s₀) (hpre : Run cfg s₀ es₀ (s 0))
    (hrun : ∀ k < m, ∃ es, Run cfg (s k) es (s (k + 1)))
    (hclear : ∀ k < m, Paging.Clear (·.createdAt) L (ofType equal type (s k)))
    (hl : ∀ k ≤ m, ∃ n, ListsJobs equal (s k).mysql.store (pageQuery none type L k)
      { l k with total := n })
    (hend : (l m).jobs = []) {r : JobRow} (hr : r ∈ ofType equal type (s 0)) :
    ∃ k < m, ∃ r' ∈ (l k).jobs, r'.id = r.id ∧ (s k).mysql.store.job? r.id = some r' := by
  choose! n hn using hl
  choose! out hout hjobs using fun k hk => (hn k hk).jobs
  have hjobs' (k : ℕ) (hk : k ≤ m) : (l k).jobs = Paging.page L (out k) k := by
    rw [show (l k).jobs = _ from hjobs k hk, pageQuery, Option.getD_some, Option.getD_some,
      pageLimit_toString h₁ h₂, pageOffset_toString, List.map_id, Paging.page]
  -- A job of the type stays one, with the time of its creation.
  have hgrow (k : ℕ) (hk : k < m) : ((ofType equal type (s k)).map JobRow.stamp).Subperm
      ((ofType equal type (s (k + 1))).map JobRow.stamp) := by
    refine List.subperm_of_subset (List.Nodup.of_map Prod.fst ?_) fun p hp => ?_
    · rw [List.map_map]
      exact jobs_nodup _ _
    · obtain ⟨q, hq, rfl⟩ := List.mem_map.1 hp
      obtain ⟨hmem, hmatch⟩ := List.mem_filter.1 hq
      obtain ⟨es, hto⟩ := hpre.pages hrun k hk.le
      obtain ⟨es', hstep⟩ := hrun k hk
      obtain ⟨q', hq', hcreated, htype'⟩ :=
        (hstep.life_on hto h₀ q.id).stays (Tables.job?_of_mem hmem)
      refine List.mem_map.2 ⟨q', List.mem_filter.2 ⟨Tables.job?_mem hq', ?_⟩, ?_⟩
      · simp only [ListQuery.matches, pageQuery, htype', Option.all_none, Bool.true_and]
        simpa [ListQuery.matches, pageQuery] using hmatch
      · exact Prod.ext (Tables.job?_id hq') hcreated
  have hanswer (k : ℕ) (hk : k ≤ m) : Paging.Answers Prod.snd
      ((ofType equal type (s k)).map JobRow.stamp) ((out k).map JobRow.stamp) :=
    Paging.Answers.map (f := JobRow.stamp) (hout k hk)
  have hclear' (k : ℕ) (hk : k < m) : Paging.Clear Prod.snd L
      ((ofType equal type (s k)).map JobRow.stamp) :=
    Paging.Clear.map (f := JobRow.stamp) (hclear k hk)
  have hlast : Paging.page L ((out m).map JobRow.stamp) m = [] := by
    rw [Paging.page_map, ← hjobs' m le_rfl, hend, List.map_nil]
  obtain ⟨k, hk, hpage⟩ := Paging.skips_none hgrow hanswer hclear' h₁ hlast
    (List.mem_map_of_mem hr)
  rw [Paging.page_map] at hpage
  obtain ⟨r', hr', htag⟩ := List.mem_map.1 hpage
  obtain ⟨hid, -⟩ := Prod.mk.inj htag
  refine ⟨k, hk, r', hjobs' k hk.le ▸ hr', hid, ?_⟩
  have hmem := (hout k hk.le).perm.subset (List.mem_of_mem_drop (List.mem_of_mem_take hr'))
  exact hid ▸ Tables.job?_of_mem (List.mem_filter.1 hmem).1

/-- The states in which the pages are requested: a second job is created after the first
    page was. -/
def firstPages : ℕ → State
  | 0 => (State.after (creating 0 0 0 firstInput firstJob)).1
  | _ + 1 => (State.after (creating 0 0 0 firstInput firstJob ++ .advance 2000000 ::
      creating 1 2 2000000 firstInput secondJob)).1

theorem listJobs_skips_none_first : ∃ l : ℕ → Listing JobRow,
    (∀ k ≤ 2, ListsJobs (· == ·) (firstPages k).mysql.store (pageQuery none none 1 k) (l k)) ∧
    ∃ k < 2, ∃ r ∈ (l k).jobs, r.id = firstJob := by
  choose out hout using fun k => Paging.exists_answer (·.createdAt)
    ((firstPages k).mysql.store.jobs.filter ((pageQuery none none 1 k).matches (· == ·)))
  let l (k : ℕ) : Listing JobRow :=
    ⟨((out k).drop (k * 1)).take 1, (ofType (· == ·) none (firstPages k)).length, 1, k * 1⟩
  have hl (k : ℕ) :
      ListsJobs (· == ·) (firstPages k).mysql.store (pageQuery none none 1 k) (l k) := by
    rw [ListsJobs, pageQuery, Option.getD_some, Option.getD_some,
      pageLimit_toString le_rfl (by decide), pageOffset_toString]
    exact ⟨⟨out k, hout k, (List.map_id _).symm⟩, rfl, rfl, rfl⟩
  have hrun (k : ℕ) : ∃ es, Run (.defaults id) (firstPages k) es (firstPages (k + 1)) := by
    cases k with
    | zero =>
      exact ⟨_, Run.play _ _ (.advance 2000000 :: creating 1 2 2000000 firstInput secondJob)⟩
    | succ => exact ⟨_, .refl⟩
  have hclear (k : ℕ) : Paging.Clear (·.createdAt) 1 (ofType (· == ·) none (firstPages k)) := by
    refine Paging.clear_of_nodup ?_
    cases k with
    | zero => decide
    | succ =>
      exact (by decide : ((ofType (· == ·) none (firstPages 1)).map (·.createdAt)).Nodup)
  have hpre : Run (.defaults id) .fresh _ (firstPages 0) := Run.play _ _ _
  obtain ⟨r, hr, hid⟩ : ∃ r, r ∈ ofType (· == ·) none (firstPages 0) ∧ r.id = firstJob :=
    ⟨_, List.mem_singleton_self _, rfl⟩
  obtain ⟨k, hk, r', hr', hid', -⟩ := listJobs_skips_none (m := 2) (s := firstPages) (l := l) le_rfl
    (by decide) .fresh hpre (fun k _ => hrun k) (fun k _ => hclear k)
    (fun k _ => ⟨_, hl k⟩) ((Paging.page_eq_nil Nat.one_pos (hout 2)).2 (by decide)) hr
  exact ⟨l, fun k _ => hl k, k, hk, r', hr', hid'.trans hid⟩

/-- A client that asks for the pages of `GET /jobs/dead`, one after the other, until one is
    empty has seen every job that was dead when it began, if none was requeued meanwhile:
    unless, at a request, the end of a page was between dead jobs that were changed last
    within the same second. The `total` of a page is counted later. -/
theorem listDeadJobs_skips_none {l : ℕ → Listing JobSummary} (h₁ : 1 ≤ L) (h₂ : L ≤ 100)
    (h₀ : Initial s₀) (hpre : Run cfg s₀ es₀ (s 0))
    (hrun : ∀ k < m, ∃ es, Run cfg (s k) es (s (k + 1)) ∧
      ∀ sid id a, .closed sid (.committed (.requeueJob id) a) ∉ es)
    (hclear : ∀ k < m, Paging.Clear (·.updatedAt) L (dead (s k)))
    (hl : ∀ k ≤ m, ∃ n, ListsDeadJobs (s k).mysql.store (some (toString L))
      (some (toString (k * L))) { l k with total := n })
    (hend : (l m).jobs = []) {r : JobRow} (hr : r ∈ dead (s 0)) :
    ∃ k < m, r.summary ∈ (l k).jobs := by
  choose! n hn using hl
  choose! out hout hjobs using fun k hk => (hn k hk).jobs
  have hjobs' (k : ℕ) (hk : k ≤ m) :
      (l k).jobs = (Paging.page L (out k) k).map JobRow.summary := by
    rw [show (l k).jobs = _ from hjobs k hk, Option.getD_some, Option.getD_some,
      pageLimit_toString h₁ h₂, pageOffset_toString, Paging.page]
  -- A job that is dead stays as it is.
  have hgrow (k : ℕ) (hk : k < m) : (dead (s k)).Subperm (dead (s (k + 1))) := by
    refine List.subperm_of_subset (List.Nodup.of_map _ (jobs_nodup _ _)) fun q hq => ?_
    obtain ⟨hmem, hst⟩ := List.mem_filter.1 hq
    obtain ⟨es, hto⟩ := hpre.pages (fun k hk => (hrun k hk).imp fun _ h => h.1) k hk.le
    obtain ⟨es', hstep, hno⟩ := hrun k hk
    have hover := ((hstep.life_on hto h₀ q.id).over (Tables.job?_of_mem hmem)
      (.inr (by simpa using hst)) (requeues_eq_zero hno)).1
    exact List.mem_filter.2 ⟨Tables.job?_mem hover, hst⟩
  have hlast : Paging.page L (out m) m = [] := by
    simpa [hjobs' m le_rfl] using hend
  obtain ⟨k, hk, hpage⟩ := Paging.skips_none hgrow hout hclear h₁ hlast hr
  exact ⟨k, hk, hjobs' k hk.le ▸ List.mem_map_of_mem hpage⟩

/-- The id of a third job. -/
def thirdJob : JobId := ⟨"third", by decide⟩

/-- A job is requeued. -/
def Event.requeues : Event → Bool
  | .closed _ (.committed (.requeueJob _) _) => true
  | _ => false

/-- What happens while `GET /jobs/dead` is paged: a third job is created and ends dead. -/
def thirdDies : State × List Event :=
  (State.after twoDead).1.play (.defaults id) (.advance 2000000 :: dying 2 10 4000000 thirdJob)

/-- The states in which the pages are requested: two jobs are dead, and a third one dies after
    the first request. -/
def deadPages : ℕ → State
  | 0 => (State.after twoDead).1
  | _ + 1 => thirdDies.1

/-- Both jobs that were dead are in one of three pages of one job. -/
theorem listDeadJobs_skips_none_first : ∃ l : ℕ → Listing JobSummary,
    (∀ k ≤ 3, ListsDeadJobs (deadPages k).mysql.store (some (toString 1))
      (some (toString (k * 1))) (l k)) ∧ (dead (deadPages 0)).length = 2 ∧
    (dead (deadPages 1)).length = 3 ∧
    ∀ r ∈ dead (deadPages 0), ∃ k < 3, r.summary ∈ (l k).jobs := by
  choose out hout using fun k => Paging.exists_answer (·.updatedAt) (dead (deadPages k))
  let l (k : ℕ) : Listing JobSummary :=
    ⟨(((out k).drop (k * 1)).take 1).map JobRow.summary, (dead (deadPages k)).length, 1, k * 1⟩
  have hl (k : ℕ) : ListsDeadJobs (deadPages k).mysql.store (some (toString 1))
      (some (toString (k * 1))) (l k) := by
    rw [ListsDeadJobs, Option.getD_some, Option.getD_some, pageLimit_toString le_rfl (by decide),
      pageOffset_toString]
    exact ⟨⟨out k, hout k, rfl⟩, rfl, rfl, rfl⟩
  have hpre : Run (.defaults id) .fresh _ (deadPages 0) := Run.play _ _ _
  have hrun (k : ℕ) : ∃ es, Run (.defaults id) (deadPages k) es (deadPages (k + 1)) ∧
      ∀ sid id a, .closed sid (.committed (.requeueJob id) a) ∉ es := by
    cases k with
    | zero =>
      have hnone : thirdDies.2.any Event.requeues = false := by decide +kernel
      exact ⟨thirdDies.2, Run.play _ _ _, fun sid id a hmem =>
        Bool.false_ne_true (hnone.symm.trans (List.any_eq_true.2 ⟨_, hmem, rfl⟩))⟩
    | succ k => exact ⟨[], .refl, by simp⟩
  have hclear (k : ℕ) : Paging.Clear (·.updatedAt) 1 (dead (deadPages k)) := by
    refine Paging.clear_of_nodup ?_
    cases k with
    | zero => exact (by decide : ((dead (deadPages 0)).map (·.updatedAt)).Nodup)
    | succ => exact (by decide +kernel : ((dead (deadPages 1)).map (·.updatedAt)).Nodup)
  have hthree : (dead (deadPages 1)).length = 3 := by decide +kernel
  have hend : (l 3).jobs = [] :=
    List.map_eq_nil_iff.2 ((Paging.page_eq_nil Nat.one_pos (hout 3)).2 hthree.le)
  refine ⟨l, fun k _ => hl k, by decide, hthree, fun r hr => ?_⟩
  exact listDeadJobs_skips_none (m := 3) (s := deadPages) le_rfl (by decide) .fresh hpre
    (fun k _ => hrun k) (fun k _ => hclear k) (fun k _ => ⟨_, hl k⟩) hend hr

end Pages

end ScaleQueue
