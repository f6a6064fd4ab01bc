import Mathlib.Data.Nat.Notation

/-!
# A Redis stream with a consumer group

One stream key, as its commands show it. Entries are numbered in the order they
were added; a consumer group remembers the last entry it delivered and keeps the
entries that were delivered and not acknowledged, in the order of their ids.
Deleting the key takes the entries and the group with it; adding to a missing
key makes a stream without a group.
-/

namespace Redis

variable {φ χ : Type}

/-- An entry of a stream. -/
structure Entry (φ : Type) where
  id : ℕ
  values : φ

/-- An entry that was delivered and not acknowledged. -/
structure Pending (φ χ : Type) where
  entry : Entry φ
  consumer : χ
  /-- When it was delivered last. -/
  delivered : ℕ

/-- A consumer group. -/
structure Group (φ χ : Type) where
  /-- The id of the last entry delivered to the group. -/
  last : ℕ
  pending : List (Pending φ χ)

/-- A stream, and its consumer group if it was created. -/
structure Stream (φ χ : Type) where
  entries : List (Entry φ)
  group : Option (Group φ χ)

/-- The key of the stream, if it exists, and the id of the next entry. -/
structure Key (φ χ : Type) where
  stream : Option (Stream φ χ)
  nextId : ℕ

namespace Key

variable (key : Key φ χ)

/-- The group, if the key and the group exist: otherwise commands on the group
    answer NOGROUP. -/
def group : Option (Group φ χ) := key.stream.bind (·.group)

/-- The stream has this group. -/
def setGroup (g : Group φ χ) : Key φ χ :=
  { key with stream := key.stream.map fun s => { s with group := some g } }

/-- XADD. -/
def xadd (values : φ) : Key φ χ where
  stream := match key.stream with
    | none => some ⟨[⟨key.nextId, values⟩], none⟩
    | some s => some { s with entries := s.entries ++ [⟨key.nextId, values⟩] }
  nextId := key.nextId + 1

/-- XGROUP CREATE MKSTREAM from the beginning of the stream; an existing group
    (BUSYGROUP) stays as it is. -/
def xgroupCreateMkStream : Key φ χ :=
  match key.stream with
  | none => { key with stream := some ⟨[], some ⟨0, []⟩⟩ }
  | some s =>
    match s.group with
    | none => { key with stream := some { s with group := some ⟨0, []⟩ } }
    | some _ => key

/-- DEL. -/
def del : Key φ χ := { key with stream := none }

/-- XACK: the entry is removed from those not acknowledged, and no other is. -/
def xack (id : ℕ) : Key φ χ :=
  match key.group with
  | none => key
  | some g => key.setGroup { g with pending := g.pending.filter (·.entry.id ≠ id) }

/-- The first entry that was not delivered to the group. -/
def undelivered (g : Group φ χ) : Option (Entry φ) :=
  (key.stream.elim [] (·.entries)).find? (g.last < ·.id)

/-- XREADGROUP of one new entry: `none` is NOGROUP. -/
def xreadgroup (consumer : χ) (now : ℕ) : Option (Option (Entry φ) × Key φ χ) :=
  match key.group with
  | none => none
  | some g =>
    match key.undelivered g with
    | none => some (none, key)
    | some e => some (some e, key.setGroup ⟨e.id, g.pending ++ [⟨e, consumer, now⟩]⟩)

end Key

/-- The id of the next entry to scan, `0` at the end. -/
def cursorOf (ps : List (Pending φ χ)) : ℕ :=
  match ps with
  | [] => 0
  | p :: _ => p.entry.id

/-- Scanning the pending entries: at most `visits` entries are visited, and at
    most `count` of those that have been idle for long enough are claimed. -/
def scan (consumer : χ) (now minIdle : ℕ) :
    (visits count : ℕ) → List (Pending φ χ) → List (Entry φ) × List (Pending φ χ) × ℕ
  | _, _, [] => ([], [], 0)
  | 0, _, p :: ps => ([], p :: ps, cursorOf (p :: ps))
  | _, 0, p :: ps => ([], p :: ps, cursorOf (p :: ps))
  | visits + 1, count + 1, p :: ps =>
    if p.delivered + minIdle ≤ now then
      let (es, ps', next) := scan consumer now minIdle visits count ps
      (p.entry :: es, { p with consumer := consumer, delivered := now } :: ps', next)
    else
      let (es, ps', next) := scan consumer now minIdle visits (count + 1) ps
      (es, p :: ps', next)

/-- XAUTOCLAIM from the entry `start`: the entries claimed, and where to go on.
    `none` is NOGROUP. -/
def Key.xautoclaim (key : Key φ χ) (consumer : χ) (now minIdle start count : ℕ) :
    Option (List (Entry φ) × ℕ × Key φ χ) :=
  match key.group with
  | none => none
  | some g =>
    let before := g.pending.takeWhile (·.entry.id < start)
    let (es, ps, next) := scan consumer now minIdle (10 * count) count
      (g.pending.dropWhile (·.entry.id < start))
    some (es, next, key.setGroup { g with pending := before ++ ps })

/-! ## What the commands can hand out -/

/-- The entries that the key may still hand out: those of the stream, and those
    pending in the group. -/
def Key.Holds (key : Key φ χ) (e : Entry φ) : Prop :=
  ∃ s, key.stream = some s ∧ (e ∈ s.entries ∨ ∃ g p, s.group = some g ∧ p ∈ g.pending ∧ p.entry = e)

variable {key : Key φ χ} {e : Entry φ}

theorem group_eq_some {g : Group φ χ} :
    key.group = some g ↔ ∃ s, key.stream = some s ∧ s.group = some g := by
  simp [Key.group, Option.bind_eq_some_iff]

theorem Key.Holds.of_setGroup {g : Group φ χ} (h : (key.setGroup g).Holds e) :
    key.Holds e ∨ ∃ p ∈ g.pending, p.entry = e := by
  obtain ⟨s, hs, h⟩ := h
  simp only [setGroup, Option.map_eq_some_iff] at hs
  obtain ⟨s', hs', rfl⟩ := hs
  rcases h with h | ⟨g', p, hg, hp, rfl⟩
  · exact .inl ⟨s', hs', .inl h⟩
  · obtain rfl : g = g' := by simpa using hg
    exact .inr ⟨p, hp, rfl⟩

theorem Key.holds_pending {g : Group φ χ} (hg : key.group = some g) {p : Pending φ χ}
    (hp : p ∈ g.pending) : key.Holds p.entry := by
  obtain ⟨s, hs, hsg⟩ := group_eq_some.1 hg
  exact ⟨s, hs, .inr ⟨g, p, hsg, hp, rfl⟩⟩

theorem holds_xadd {values : φ} (h : (key.xadd values).Holds e) :
    key.Holds e ∨ e = ⟨key.nextId, values⟩ := by
  obtain ⟨s, hs, h⟩ := h
  unfold Key.xadd at hs
  split at hs
  · obtain rfl := Option.some.inj hs
    rcases h with h | ⟨_, _, hg, _⟩
    · exact .inr (by simpa using h)
    · simp at hg
  · rename_i s' hs'
    obtain rfl := Option.some.inj hs
    rcases h with h | h
    · rcases List.mem_append.1 h with h | h
      · exact .inl ⟨s', hs', .inl h⟩
      · exact .inr (by simpa using h)
    · exact .inl ⟨s', hs', .inr h⟩

theorem holds_xgroupCreateMkStream (h : key.xgroupCreateMkStream.Holds e) : key.Holds e := by
  obtain ⟨s, hs, h⟩ := h
  unfold Key.xgroupCreateMkStream at hs
  split at hs
  · obtain rfl := Option.some.inj hs
    rcases h with h | ⟨g, p, hg, hp, _⟩
    · exact absurd h List.not_mem_nil
    · obtain rfl := Option.some.inj hg
      exact absurd hp List.not_mem_nil
  · rename_i s' hs'
    split at hs
    · obtain rfl := Option.some.inj hs
      rcases h with h | ⟨g, p, hg, hp, _⟩
      · exact ⟨s', hs', .inl h⟩
      · obtain rfl := Option.some.inj hg
        exact absurd hp List.not_mem_nil
    · exact ⟨s, hs, h⟩

theorem holds_xack {id : ℕ} (h : (key.xack id).Holds e) : key.Holds e := by
  unfold Key.xack at h
  split at h
  · exact h
  · rename_i g hg
    rcases h.of_setGroup with h | ⟨p, hp, rfl⟩
    · exact h
    · exact key.holds_pending hg (List.mem_filter.1 hp).1

theorem xreadgroup_holds {consumer : χ} {now : ℕ} {o : Option (Entry φ)} {key' : Key φ χ}
    (h : key.xreadgroup consumer now = some (o, key')) :
    (∀ e ∈ o, key.Holds e) ∧ ∀ e, key'.Holds e → key.Holds e := by
  unfold Key.xreadgroup at h
  split at h
  · exact absurd h (by simp)
  · rename_i g hg
    split at h
    · obtain ⟨rfl, rfl⟩ := Prod.mk.inj (Option.some.inj h)
      exact ⟨by simp, fun _ => id⟩
    · rename_i e' he'
      obtain ⟨rfl, rfl⟩ := Prod.mk.inj (Option.some.inj h)
      obtain ⟨s, hs, _⟩ := group_eq_some.1 hg
      have he : key.Holds e' :=
        ⟨s, hs, .inl (by simpa [Key.undelivered, hs] using List.mem_of_find?_eq_some he')⟩
      refine ⟨by simpa using he, fun e h => ?_⟩
      rcases h.of_setGroup with h | ⟨p, hp, rfl⟩
      · exact h
      · rcases List.mem_append.1 hp with hp | hp
        · exact key.holds_pending hg hp
        · obtain rfl := List.mem_singleton.1 hp
          exact he

/-- A scan claims and keeps only entries that were pending. -/
theorem scan_subset (consumer : χ) (now minIdle visits count : ℕ) (ps : List (Pending φ χ)) :
    (∀ e ∈ (scan consumer now minIdle visits count ps).1, ∃ p ∈ ps, p.entry = e) ∧
    ∀ q ∈ (scan consumer now minIdle visits count ps).2.1, ∃ p ∈ ps, p.entry = q.entry := by
  induction ps generalizing visits count with
  | nil => cases visits <;> simp [scan]
  | cons p ps ih =>
    have self : ∀ q ∈ p :: ps, ∃ p' ∈ p :: ps, p'.entry = q.entry := fun q hq => ⟨q, hq, rfl⟩
    have older {e : Entry φ} : (∃ p' ∈ ps, p'.entry = e) → ∃ p' ∈ p :: ps, p'.entry = e :=
      fun ⟨p', hp', h⟩ => ⟨p', List.mem_cons_of_mem _ hp', h⟩
    cases visits with
    | zero => exact ⟨by simp [scan], self⟩
    | succ visits =>
      cases count with
      | zero => exact ⟨by simp [scan], self⟩
      | succ count =>
        rw [scan]
        split
        · obtain ⟨hes, hps⟩ := ih visits count
          refine ⟨fun e he => ?_, fun q hq => ?_⟩
          · rcases List.mem_cons.1 he with rfl | he
            · exact ⟨p, List.mem_cons_self, rfl⟩
            · exact older (hes e he)
          · rcases List.mem_cons.1 hq with rfl | hq
            · exact ⟨p, List.mem_cons_self, rfl⟩
            · exact older (hps q hq)
        · obtain ⟨hes, hps⟩ := ih visits (count + 1)
          refine ⟨fun e he => older (hes e he), fun q hq => ?_⟩
          rcases List.mem_cons.1 hq with rfl | hq
          · exact ⟨q, List.mem_cons_self, rfl⟩
          · exact older (hps q hq)

theorem xautoclaim_holds {consumer : χ} {now minIdle start count next : ℕ}
    {es : List (Entry φ)} {key' : Key φ χ}
    (h : key.xautoclaim consumer now minIdle start count = some (es, next, key')) :
    (∀ e ∈ es, key.Holds e) ∧ ∀ e, key'.Holds e → key.Holds e := by
  unfold Key.xautoclaim at h
  split at h
  · exact absurd h (by simp)
  · rename_i g hg
    simp only [Option.some.injEq, Prod.mk.injEq] at h
    obtain ⟨rfl, rfl, rfl⟩ := h
    have hsub := scan_subset consumer now minIdle (10 * count) count
      (g.pending.dropWhile (·.entry.id < start))
    have hdrop {p : Pending φ χ} (hp : p ∈ g.pending.dropWhile (·.entry.id < start)) :
        key.Holds p.entry := key.holds_pending hg ((List.dropWhile_sublist _).subset hp)
    refine ⟨fun e he => ?_, fun e he => ?_⟩
    · obtain ⟨p, hp, rfl⟩ := hsub.1 e he
      exact hdrop hp
    · rcases he.of_setGroup with he | ⟨q, hq, rfl⟩
      · exact he
      · rcases List.mem_append.1 hq with hq | hq
        · exact key.holds_pending hg ((List.takeWhile_sublist _).subset hq)
        · obtain ⟨p, hp, hpq⟩ := hsub.2 q hq
          exact hpq ▸ hdrop hp

/-! ## What is not acknowledged -/

/-- The entry was delivered to the group, and not acknowledged. -/
def Key.Awaits (key : Key φ χ) (e : Entry φ) : Prop :=
  ∃ g p, key.group = some g ∧ p ∈ g.pending ∧ p.entry = e

theorem group_setGroup_eq {g g' : Group φ χ} (h : key.group = some g) :
    (key.setGroup g').group = some g' := by
  obtain ⟨s, hs, -⟩ := group_eq_some.1 h
  exact group_eq_some.2 ⟨{ s with group := some g' }, by simp [Key.setGroup, hs], rfl⟩

theorem Key.Awaits.xadd (h : key.Awaits e) (values : φ) : (key.xadd values).Awaits e := by
  obtain ⟨g, p, hg, hp, rfl⟩ := h
  obtain ⟨s, hs, hsg⟩ := group_eq_some.1 hg
  refine ⟨g, p,
    group_eq_some.2 ⟨{ s with entries := s.entries ++ [⟨key.nextId, values⟩] }, ?_, hsg⟩, hp, rfl⟩
  simp [Key.xadd, hs]

theorem Key.Awaits.xgroupCreateMkStream (h : key.Awaits e) : key.xgroupCreateMkStream.Awaits e := by
  obtain ⟨g, p, hg, hp, rfl⟩ := h
  obtain ⟨s, hs, hsg⟩ := group_eq_some.1 hg
  have : key.xgroupCreateMkStream = key := by simp [Key.xgroupCreateMkStream, hs, hsg]
  exact ⟨g, p, this.symm ▸ hg, hp, rfl⟩

/-- `XACK` removes no other entry than the one it names. -/
theorem Key.Awaits.xack {id : ℕ} (h : key.Awaits e) (hne : e.id ≠ id) : (key.xack id).Awaits e := by
  obtain ⟨g, p, hg, hp, rfl⟩ := h
  simp only [Key.xack, hg]
  exact ⟨_, p, group_setGroup_eq hg, List.mem_filter.2 ⟨hp, by simpa using hne⟩, rfl⟩

theorem Key.Awaits.xreadgroup {consumer : χ} {now : ℕ} {o : Option (Entry φ)} {key' : Key φ χ}
    (h : key.Awaits e) (hx : key.xreadgroup consumer now = some (o, key')) : key'.Awaits e := by
  obtain ⟨g, p, hg, hp, rfl⟩ := h
  simp only [Key.xreadgroup, hg] at hx
  split at hx
  · obtain ⟨-, rfl⟩ := Prod.mk.inj (Option.some.inj hx)
    exact ⟨g, p, hg, hp, rfl⟩
  · obtain ⟨-, rfl⟩ := Prod.mk.inj (Option.some.inj hx)
    exact ⟨_, p, group_setGroup_eq hg, List.mem_append_left _ hp, rfl⟩

/-- A scan keeps what was pending. -/
theorem scan_keeps (consumer : χ) (now minIdle visits count : ℕ) (ps : List (Pending φ χ)) :
    ∀ p ∈ ps, ∃ q ∈ (scan consumer now minIdle visits count ps).2.1, q.entry = p.entry := by
  induction ps generalizing visits count with
  | nil => simp
  | cons p ps ih =>
    have self : ∀ q ∈ p :: ps, ∃ q' ∈ p :: ps, q'.entry = q.entry := fun q hq => ⟨q, hq, rfl⟩
    cases visits with
    | zero => simpa [scan] using self
    | succ visits =>
      cases count with
      | zero => simpa [scan] using self
      | succ count =>
        rw [scan]
        split
        · intro q hq
          rcases List.mem_cons.1 hq with rfl | hq
          · exact ⟨_, List.mem_cons_self, rfl⟩
          · obtain ⟨q', hq', h⟩ := ih visits count q hq
            exact ⟨q', List.mem_cons_of_mem _ hq', h⟩
        · intro q hq
          rcases List.mem_cons.1 hq with rfl | hq
          · exact ⟨_, List.mem_cons_self, rfl⟩
          · obtain ⟨q', hq', h⟩ := ih visits (count + 1) q hq
            exact ⟨q', List.mem_cons_of_mem _ hq', h⟩

theorem Key.Awaits.xautoclaim {consumer : χ} {now minIdle start count next : ℕ}
    {es : List (Entry φ)} {key' : Key φ χ} (h : key.Awaits e)
    (hx : key.xautoclaim consumer now minIdle start count = some (es, next, key')) :
    key'.Awaits e := by
  obtain ⟨g, p, hg, hp, rfl⟩ := h
  simp only [Key.xautoclaim, hg, Option.some.injEq, Prod.mk.injEq] at hx
  obtain ⟨-, -, rfl⟩ := hx
  rw [← List.takeWhile_append_dropWhile (l := g.pending) (p := (·.entry.id < start))] at hp
  rcases List.mem_append.1 hp with hp | hp
  · exact ⟨_, p, group_setGroup_eq hg, List.mem_append_left _ hp, rfl⟩
  · obtain ⟨q, hq, heq⟩ := scan_keeps consumer now minIdle (10 * count) count _ p hp
    exact ⟨_, q, group_setGroup_eq hg, List.mem_append_right _ hq, heq⟩

/-! ## Ids -/

@[simp] theorem setGroup_nextId (g : Group φ χ) : (key.setGroup g).nextId = key.nextId := rfl

theorem xack_nextId {id : ℕ} : (key.xack id).nextId = key.nextId := by
  unfold Key.xack
  split <;> rfl

theorem xreadgroup_nextId {consumer : χ} {now : ℕ} {o : Option (Entry φ)} {key' : Key φ χ}
    (h : key.xreadgroup consumer now = some (o, key')) : key'.nextId = key.nextId := by
  unfold Key.xreadgroup at h
  split at h
  · simp at h
  · split at h <;> obtain ⟨-, rfl⟩ := Prod.mk.inj (Option.some.inj h) <;> rfl

theorem xautoclaim_nextId {consumer : χ} {now minIdle start count next : ℕ}
    {es : List (Entry φ)} {key' : Key φ χ}
    (h : key.xautoclaim consumer now minIdle start count = some (es, next, key')) :
    key'.nextId = key.nextId := by
  unfold Key.xautoclaim at h
  split at h
  · simp at h
  · simp only [Option.some.injEq, Prod.mk.injEq] at h
    obtain ⟨-, -, rfl⟩ := h
    rfl

theorem xgroupCreateMkStream_nextId : key.xgroupCreateMkStream.nextId = key.nextId := by
  unfold Key.xgroupCreateMkStream
  split
  · rfl
  · split <;> rfl

/-- What was added has an id below the next one. -/
structure Key.Sound (key : Key φ χ) : Prop where
  nextId_pos : 0 < key.nextId
  holds_lt : ∀ e, key.Holds e → e.id < key.nextId
  last_lt : ∀ g, key.group = some g → g.last < key.nextId

theorem group_setGroup {g g' : Group φ χ} (h : (key.setGroup g).group = some g') : g' = g := by
  obtain ⟨s, hs, hg⟩ := group_eq_some.1 h
  simp only [Key.setGroup, Option.map_eq_some_iff] at hs
  obtain ⟨_, _, rfl⟩ := hs
  exact (Option.some.inj hg).symm

theorem Key.Sound.xadd (h : key.Sound) (values : φ) : (key.xadd values).Sound where
  nextId_pos := Nat.succ_pos _
  holds_lt e he := by
    rcases holds_xadd he with he | rfl
    · exact Nat.lt_succ_of_lt (h.holds_lt e he)
    · exact Nat.lt_succ_self _
  last_lt g hg := by
    obtain ⟨s, hs, hsg⟩ := group_eq_some.1 hg
    unfold Key.xadd at hs
    split at hs
    · obtain rfl := Option.some.inj hs
      cases hsg
    · rename_i hs'
      obtain rfl := Option.some.inj hs
      exact Nat.lt_succ_of_lt (h.last_lt g (group_eq_some.2 ⟨_, hs', hsg⟩))

theorem Key.Sound.xgroupCreateMkStream (h : key.Sound) : key.xgroupCreateMkStream.Sound := by
  have hnext : key.xgroupCreateMkStream.nextId = key.nextId := xgroupCreateMkStream_nextId
  refine ⟨hnext ▸ h.nextId_pos, fun e he => ?_, fun g hg => ?_⟩
  · exact hnext ▸ h.holds_lt e (holds_xgroupCreateMkStream he)
  · rw [hnext]
    obtain ⟨s, hs, hsg⟩ := group_eq_some.1 hg
    unfold Key.xgroupCreateMkStream at hs
    split at hs
    · obtain rfl := Option.some.inj hs
      obtain rfl := Option.some.inj hsg
      exact h.nextId_pos
    · split at hs
      · obtain rfl := Option.some.inj hs
        obtain rfl := Option.some.inj hsg
        exact h.nextId_pos
      · exact h.last_lt g (group_eq_some.2 ⟨s, hs, hsg⟩)

theorem Key.Sound.del (h : key.Sound) : key.del.Sound where
  nextId_pos := h.nextId_pos
  holds_lt e he := by
    obtain ⟨s, hs, -⟩ := he
    cases hs
  last_lt g hg := by cases hg

theorem Key.Sound.xack (h : key.Sound) (id : ℕ) : (key.xack id).Sound := by
  have hnext : (key.xack id).nextId = key.nextId := xack_nextId
  refine ⟨hnext ▸ h.nextId_pos, fun e he => hnext ▸ h.holds_lt e (holds_xack he), fun g hg => ?_⟩
  rw [hnext]
  unfold Key.xack at hg
  split at hg
  · exact h.last_lt g hg
  · rename_i hgroup
    rw [group_setGroup hg]
    have := h.last_lt _ hgroup
    exact this

theorem Key.Sound.xreadgroup (h : key.Sound) {consumer : χ} {now : ℕ} {o : Option (Entry φ)}
    {key' : Key φ χ} (hx : key.xreadgroup consumer now = some (o, key')) : key'.Sound := by
  obtain ⟨ho, hold⟩ := xreadgroup_holds hx
  unfold Key.xreadgroup at hx
  split at hx
  · exact absurd hx (by simp)
  · split at hx
    · obtain ⟨-, rfl⟩ := Prod.mk.inj (Option.some.inj hx)
      exact h
    · obtain ⟨rfl, rfl⟩ := Prod.mk.inj (Option.some.inj hx)
      refine ⟨h.nextId_pos, fun e he => h.holds_lt e (hold e he), fun g hg => ?_⟩
      obtain rfl := group_setGroup hg
      exact h.holds_lt _ (ho _ rfl)

theorem Key.Sound.xautoclaim (h : key.Sound) {consumer : χ} {now minIdle start count next : ℕ}
    {es : List (Entry φ)} {key' : Key φ χ}
    (hx : key.xautoclaim consumer now minIdle start count = some (es, next, key')) :
    key'.Sound := by
  have hold := (xautoclaim_holds hx).2
  unfold Key.xautoclaim at hx
  split at hx
  · exact absurd hx (by simp)
  · rename_i hgroup
    simp only [Option.some.injEq, Prod.mk.injEq] at hx
    obtain ⟨-, -, rfl⟩ := hx
    refine ⟨h.nextId_pos, fun e he => h.holds_lt e (hold e he), fun g hg => ?_⟩
    rw [group_setGroup hg]
    have := h.last_lt _ hgroup
    exact this

/-! ## What is still to be read -/

/-- The newest entry of the stream, which the group has yet to read, with at most `n`
    unread entries up to it. -/
def Key.Unread (key : Key φ χ) (e : Entry φ) (n : ℕ) : Prop :=
  ∃ s g, key.stream = some s ∧ s.group = some g ∧ g.last < e.id ∧ e ∈ s.entries ∧
    (∀ q ∈ s.entries, q = e ∨ q.id < e.id) ∧ s.entries.countP (g.last < ·.id) ≤ n

theorem isSome_group : key.group.isSome ↔ ∃ s g, key.stream = some s ∧ s.group = some g := by
  rw [Option.isSome_iff_exists]
  constructor
  · rintro ⟨g, hg⟩
    obtain ⟨s, hs, hsg⟩ := group_eq_some.1 hg
    exact ⟨s, g, hs, hsg⟩
  · rintro ⟨s, g, hs, hsg⟩
    exact ⟨g, group_eq_some.2 ⟨s, hs, hsg⟩⟩

theorem stream_setGroup {s : Stream φ χ} (h : key.stream = some s) (g : Group φ χ) :
    (key.setGroup g).stream = some { s with group := some g } := by
  simp [Key.setGroup, h]

/-- What is added to a stream with a group is still to be read. -/
theorem Key.Sound.unread (h : key.Sound) (hg : key.group.isSome) (values : φ) :
    ∃ n, (key.xadd values).Unread ⟨key.nextId, values⟩ n := by
  obtain ⟨s, g, hs, hsg⟩ := isSome_group.1 hg
  refine ⟨_, { s with entries := s.entries ++ [⟨key.nextId, values⟩] }, g, by simp [Key.xadd, hs],
    hsg, h.last_lt g (group_eq_some.2 ⟨s, hs, hsg⟩), by simp, fun q hq => ?_, Nat.le_refl _⟩
  rcases List.mem_append.1 hq with hq | hq
  · exact .inr (h.holds_lt q ⟨s, hs, .inl hq⟩)
  · exact .inl (List.mem_singleton.1 hq)

/-- A recovery reads nothing new. -/
theorem Key.Unread.xautoclaim {consumer : χ} {now minIdle start count next n : ℕ}
    {es : List (Entry φ)} {key' : Key φ χ} (h : key.Unread e n)
    (hx : key.xautoclaim consumer now minIdle start count = some (es, next, key')) :
    key'.Unread e n := by
  obtain ⟨s, g, hs, hsg, hlast, hmem, hnewest, hcount⟩ := h
  simp only [Key.xautoclaim, group_eq_some.2 ⟨s, hs, hsg⟩, Option.some.injEq, Prod.mk.injEq] at hx
  obtain ⟨-, -, rfl⟩ := hx
  exact ⟨_, _, stream_setGroup hs _, rfl, hlast, hmem, hnewest, hcount⟩

/-- A group answers a recovery. -/
theorem Key.Unread.recovers {n : ℕ} (h : key.Unread e n) (consumer : χ)
    (now minIdle start count : ℕ) : ∃ es next key',
      key.xautoclaim consumer now minIdle start count = some (es, next, key') := by
  obtain ⟨s, g, hs, hsg, -⟩ := h
  simp only [Key.xautoclaim, group_eq_some.2 ⟨s, hs, hsg⟩]
  exact ⟨_, _, _, rfl⟩

/-- Fewer elements meet a condition that is narrower, and that one of them fails. -/
theorem countP_lt {α : Type} {l : List α} {p q : α → Bool} (hqp : ∀ a ∈ l, q a → p a) {a : α}
    (ha : a ∈ l) (hp : p a = true) (hq : q a = false) : l.countP q < l.countP p := by
  obtain ⟨l₁, l₂, rfl⟩ := List.append_of_mem ha
  have h₁ : l₁.countP q ≤ l₁.countP p :=
    List.countP_mono_left fun b hb => hqp b (List.mem_append_left _ hb)
  have h₂ : l₂.countP q ≤ l₂.countP p :=
    List.countP_mono_left fun b hb => hqp b (List.mem_append_right _ (List.mem_cons_of_mem _ hb))
  rw [List.countP_append, List.countP_append, List.countP_cons_of_pos hp,
    List.countP_cons_of_neg (by simp [hq])]
  omega

/-- A reading comes upon the entry, or upon another, and there are fewer up to it. -/
theorem Key.Unread.xreadgroup {n : ℕ} (h : key.Unread e n) (consumer : χ) (now : ℕ) :
    ∃ q key', key.xreadgroup consumer now = some (some q, key') ∧
      (q = e ∨ ∃ m < n, key'.Unread e m) := by
  obtain ⟨s, g, hs, hsg, hlast, hmem, hnewest, hcount⟩ := h
  have hgroup : key.group = some g := group_eq_some.2 ⟨s, hs, hsg⟩
  cases hq : s.entries.find? (g.last < ·.id) with
  | none => simpa [hlast] using List.find?_eq_none.1 hq e hmem
  | some q =>
    have hunread : g.last < q.id := by simpa using List.find?_some hq
    have hin := List.mem_of_find?_eq_some hq
    refine ⟨q, key.setGroup ⟨q.id, g.pending ++ [⟨q, consumer, now⟩]⟩, ?_, ?_⟩
    · simp [Key.xreadgroup, hgroup, Key.undelivered, hs, hq]
    · refine (hnewest q hin).imp_right fun hlt => ⟨s.entries.countP (q.id < ·.id), ?_,
        _, _, stream_setGroup hs _, rfl, hlt, hmem, hnewest, Nat.le_refl _⟩
      -- The entry that was read is not unread any more.
      refine Nat.lt_of_lt_of_le (countP_lt (fun x _ hx => ?_) hin (by simpa using hunread)
        (by simp)) hcount
      simp only [decide_eq_true_eq] at hx ⊢
      omega

/-! ## The group stays -/

@[simp] theorem group_xadd (values : φ) : (key.xadd values).group = key.group := by
  unfold Key.group Key.xadd
  cases key.stream <;> rfl

theorem isSome_group_xack (h : key.group.isSome) (id : ℕ) : (key.xack id).group.isSome := by
  obtain ⟨g, hg⟩ := Option.isSome_iff_exists.1 h
  simp only [Key.xack, hg, group_setGroup_eq hg, Option.isSome_some]

theorem isSome_group_xreadgroup {consumer : χ} {now : ℕ} {o : Option (Entry φ)} {key' : Key φ χ}
    (h : key.xreadgroup consumer now = some (o, key')) : key'.group.isSome := by
  unfold Key.xreadgroup at h
  split at h
  · exact absurd h (by simp)
  · rename_i g hg
    split at h <;> obtain ⟨-, rfl⟩ := Prod.mk.inj (Option.some.inj h)
    · simp [hg]
    · simp [group_setGroup_eq hg]

theorem isSome_group_xautoclaim {consumer : χ} {now minIdle start count next : ℕ}
    {es : List (Entry φ)} {key' : Key φ χ}
    (h : key.xautoclaim consumer now minIdle start count = some (es, next, key')) :
    key'.group.isSome := by
  unfold Key.xautoclaim at h
  split at h
  · exact absurd h (by simp)
  · rename_i g hg
    simp only [Option.some.injEq, Prod.mk.injEq] at h
    obtain ⟨-, -, rfl⟩ := h
    simp [group_setGroup_eq hg]

end Redis
