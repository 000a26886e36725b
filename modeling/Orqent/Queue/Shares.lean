/-
One run's share of the queue.

The table holds the tasks of all runs.  What an operation about one run does to that run's
tasks is what it does to a table that holds no others, once the tasks are numbered as they
would be there: a task's number is how many of the run's tasks come before it.  What it
does to another run's tasks is nothing.
-/
import Orqent.Queue.Order

namespace Orqent

variable {Worker : Type}

/-- The task under another id. -/
def QueueTask.renumber (f : Nat → Nat) (t : QueueTask Worker) : QueueTask Worker :=
  { t with id := f t.id }

namespace QueueTable

/-- How many of the run's tasks come before this id. -/
def rank (runId : Nat) (q : QueueTable Worker) (id : Nat) : Nat :=
  (q.take id).countP fun t => t.runId = runId

/-- The run's tasks, numbered as if there were no others. -/
def share (runId : Nat) (q : QueueTable Worker) : QueueTable Worker :=
  (q.filter fun t => t.runId = runId).map (QueueTask.renumber (q.rank runId))

/-- The ids are those the rows were inserted with. -/
def Serial (q : QueueTable Worker) : Prop := q.map QueueTask.id = List.range q.length

variable {runId : Nat} {q : QueueTable Worker} {t u : QueueTask Worker}

/-! ### Numbers -/

theorem Serial.getElem (h : Serial q) {i : Nat} (hi : i < q.length) : q[i].id = i := by
  have hget : (q.map QueueTask.id)[i]? = (List.range q.length)[i]? := by rw [h]
  simpa [hi] using hget

theorem Serial.getElem?_id (h : Serial q) (ht : t ∈ q) : q[t.id]? = some t := by
  obtain ⟨i, hi, rfl⟩ := List.mem_iff_getElem.mp ht
  rw [h.getElem hi]
  exact List.getElem?_eq_getElem hi

theorem Serial.id_lt (h : Serial q) (ht : t ∈ q) : t.id < q.length :=
  (List.getElem?_eq_some_iff.mp (h.getElem?_id ht)).1

theorem Serial.eq_of_id (h : Serial q) (ht : t ∈ q) (hu : u ∈ q) (hid : t.id = u.id) : t = u := by
  have htu := (h.getElem?_id ht).symm.trans ((congrArg (q[·]?) hid).trans (h.getElem?_id hu))
  exact Option.some.inj htu

theorem Serial.map (h : Serial q) {f : QueueTask Worker → QueueTask Worker}
    (hf : ∀ t, (f t).id = t.id) : Serial (q.map f) := by
  unfold Serial
  rw [List.map_map, List.length_map, ← h]
  exact List.map_congr_left fun t _ => hf t

theorem Serial.snoc (h : Serial q) (hid : t.id = q.length) : Serial (q ++ [t]) := by
  unfold Serial
  rw [List.map_append, List.length_append, h, List.map_singleton, hid]
  exact List.range_succ.symm

theorem rank_le {i j : Nat} (h : i ≤ j) : q.rank runId i ≤ q.rank runId j := by
  refine List.Sublist.countP_le ?_
  exact (List.take_prefix_take_left h).sublist

/-- The run's own tasks are numbered in order. -/
theorem Serial.rank_lt (h : Serial q) (ht : t ∈ q) (hrun : t.runId = runId) {j : Nat}
    (hlt : t.id < j) : q.rank runId t.id < q.rank runId j := by
  have hnext : q.rank runId (t.id + 1) = q.rank runId t.id + 1 := by
    unfold rank
    rw [List.take_add_one, h.getElem?_id ht, List.countP_append]
    simp [hrun]
  have hle : q.rank runId (t.id + 1) ≤ q.rank runId j := rank_le hlt
  omega

theorem Serial.rank_inj (h : Serial q) (ht : t ∈ q) (hu : u ∈ q) (htrun : t.runId = runId)
    (hurun : u.runId = runId) (hrank : q.rank runId t.id = q.rank runId u.id) : t.id = u.id := by
  rcases Nat.lt_trichotomy t.id u.id with hlt | heq | hlt
  · exact absurd hrank (Nat.ne_of_lt (h.rank_lt ht htrun hlt))
  · exact heq
  · exact absurd hrank (Nat.ne_of_gt (h.rank_lt hu hurun hlt))

theorem Serial.rank_le_iff (h : Serial q) (hu : u ∈ q) (hurun : u.runId = runId) :
    q.rank runId t.id ≤ q.rank runId u.id ↔ t.id ≤ u.id := by
  constructor
  · intro hle
    by_contra hlt
    exact absurd (h.rank_lt hu hurun (Nat.lt_of_not_le hlt)) (Nat.not_lt_of_le hle)
  · exact rank_le

theorem rank_map {f : QueueTask Worker → QueueTask Worker} (hf : ∀ t, (f t).runId = t.runId)
    (id : Nat) : rank runId (q.map f) id = q.rank runId id := by
  unfold rank
  rw [← List.map_take, List.countP_map]
  exact List.countP_congr fun t _ => by simp [hf]

theorem rank_append {more : QueueTable Worker} {id : Nat} (h : id ≤ q.length) :
    rank runId (q ++ more) id = q.rank runId id := by
  unfold rank
  rw [List.take_append_of_le_length h]

theorem rank_length : q.rank runId q.length = (q.share runId).length := by
  unfold rank share
  rw [List.take_length, List.length_map, List.countP_eq_length_filter]

theorem mem_share {x : QueueTask Worker} :
    x ∈ q.share runId ↔ ∃ t ∈ q, t.runId = runId ∧ t.renumber (q.rank runId) = x := by
  unfold share
  simp only [List.mem_map, List.mem_filter, decide_eq_true_eq, and_assoc]

/-! ### Updates -/

/-- An update of the rows is an update of the share. -/
theorem share_map {f g : QueueTask Worker → QueueTask Worker}
    (hf : ∀ t, (f t).runId = t.runId)
    (hg : ∀ t ∈ q, t.runId = runId →
      (f t).renumber (q.rank runId) = g (t.renumber (q.rank runId))) :
    share runId (q.map f) = (q.share runId).map g := by
  have hrank : rank runId (q.map f) = q.rank runId := funext fun id => rank_map hf id
  unfold share
  rw [hrank, List.filter_map, List.map_map, List.map_map]
  have hsame : (fun t : QueueTask Worker => decide (t.runId = runId)) ∘ f =
      fun t => decide (t.runId = runId) := funext fun t => by simp [hf]
  rw [hsame]
  refine List.map_congr_left fun t ht => ?_
  obtain ⟨hmem, hrun⟩ := List.mem_filter.mp ht
  exact hg t hmem (of_decide_eq_true hrun)

/-- An update that touches none of the run's rows. -/
theorem share_map_other {f : QueueTask Worker → QueueTask Worker}
    (hf : ∀ t, (f t).runId = t.runId) (hsame : ∀ t ∈ q, t.runId = runId → f t = t) :
    share runId (q.map f) = q.share runId := by
  rw [share_map (g := id) hf fun t ht hrun => by rw [hsame t ht hrun]; rfl, List.map_id]

theorem share_snoc (h : Serial q) (ht : t.runId = runId) (hid : t.id = q.length) :
    share runId (q ++ [t]) = q.share runId ++ [{ t with id := (q.share runId).length }] := by
  have hnew : t.renumber (rank runId (q ++ [t])) = { t with id := (q.share runId).length } := by
    unfold QueueTask.renumber
    rw [hid, rank_append (Nat.le_refl _), rank_length]
  have hold : (q.filter fun u => u.runId = runId).map
      (QueueTask.renumber (rank runId (q ++ [t]))) = q.share runId := by
    refine List.map_congr_left fun u hu => ?_
    unfold QueueTask.renumber
    rw [rank_append (Nat.le_of_lt (h.id_lt (List.mem_of_mem_filter hu)))]
  unfold share at hold ⊢
  rw [List.filter_append, List.map_append, hold, List.filter_singleton, decide_eq_true ht]
  exact congrArg (_ ++ [·]) hnew

theorem share_snoc_other (h : Serial q) (ht : t.runId ≠ runId) :
    share runId (q ++ [t]) = q.share runId := by
  unfold share
  rw [List.filter_append, List.filter_singleton, decide_eq_false ht]
  rw [cond_false, List.append_nil]
  refine List.map_congr_left fun u hu => ?_
  unfold QueueTask.renumber
  rw [rank_append (Nat.le_of_lt (h.id_lt (List.mem_of_mem_filter hu)))]

/-! ### Inside a use case -/

theorem Serial.enqueue (h : Serial q) (runId' runAfter : Nat) :
    Serial (q.enqueue runId' runAfter) := by
  unfold QueueTable.enqueue
  split
  · exact h
  · exact h.snoc rfl

theorem share_enqueue (h : Serial q) (runAfter : Nat) :
    share runId (q.enqueue runId runAfter) = (q.share runId).enqueue runId runAfter := by
  have hany : ((q.share runId).any fun t => t.pendingKey = some runId) =
      q.any fun t => t.pendingKey = some runId := by
    rw [Bool.eq_iff_iff, List.any_eq_true, List.any_eq_true]
    constructor
    · rintro ⟨x, hx, hkey⟩
      obtain ⟨t, ht, -, rfl⟩ := mem_share.mp hx
      exact ⟨t, ht, hkey⟩
    · rintro ⟨t, ht, hkey⟩
      refine ⟨_, mem_share.mpr ⟨t, ht, ?_, rfl⟩, hkey⟩
      have hkey' := of_decide_eq_true hkey
      unfold QueueTask.pendingKey at hkey'
      split at hkey'
      · exact Option.some.inj hkey'
      · cases hkey'
  unfold QueueTable.enqueue
  rw [hany]
  split
  · rfl
  · exact share_snoc h rfl rfl

theorem share_enqueue_other (h : Serial q) {other : Nat} (hne : other ≠ runId) (runAfter : Nat) :
    share runId (q.enqueue other runAfter) = q.share runId := by
  unfold QueueTable.enqueue
  split
  · rfl
  · exact share_snoc_other h hne

theorem share_finishOutstanding :
    share runId (q.finishOutstanding runId) = (q.share runId).finishOutstanding runId := by
  refine share_map (fun t => by split <;> rfl) fun t _ hrun => ?_
  unfold QueueTask.renumber QueueTask.outstanding
  dsimp only
  split <;> rfl

theorem share_finishOutstanding_other {other : Nat} (hne : other ≠ runId) :
    share runId (q.finishOutstanding other) = q.share runId := by
  refine share_map_other (fun t => by split <;> rfl) fun t _ hrun => if_neg ?_
  simp [hrun, Ne.symm hne]

/-! ### By a worker -/

section Own

variable [DecidableEq Worker] {worker : Worker} {id : Nat} {extra : QueueTask Worker → Bool}
  {f : QueueTask Worker → QueueTask Worker}

/-- The owner's update of one of the run's tasks. -/
theorem share_own (worker : Worker) (h : Serial q) (ht : t ∈ q) (hid : t.id = id)
    (hrun : t.runId = runId)
    (hf : ∀ u, (f u).runId = u.runId) (hfn : ∀ u g, (f u).renumber g = f (u.renumber g))
    (hextra : ∀ u g, extra (u.renumber g) = extra u) :
    (QueueTable.own worker (q.rank runId id) extra f (q.share runId)).1 =
        (QueueTable.own worker id extra f q).1 ∧
      (QueueTable.own worker (q.rank runId id) extra f (q.share runId)).2 =
        share runId (QueueTable.own worker id extra f q).2 := by
  have howns : ∀ u ∈ q, u.runId = runId →
      owns worker (q.rank runId id) (u.renumber (q.rank runId)) = owns worker id u := by
    intro u hu hurun
    have hiff : q.rank runId u.id = q.rank runId id ↔ u.id = id := by
      rw [← hid]
      exact ⟨h.rank_inj hu ht hurun hrun, congrArg _⟩
    unfold owns QueueTask.renumber
    simp only [hiff]
  constructor
  · show List.any _ _ = List.any _ _
    rw [Bool.eq_iff_iff, List.any_eq_true, List.any_eq_true]
    constructor
    · rintro ⟨x, hx, hown⟩
      obtain ⟨u, hu, hurun, rfl⟩ := mem_share.mp hx
      rw [howns u hu hurun, hextra] at hown
      exact ⟨u, hu, hown⟩
    · rintro ⟨u, hu, hown⟩
      have huid : u.id = t.id := by
        simp only [owns, Bool.and_eq_true, decide_eq_true_eq] at hown
        rw [hown.1.1.1, hid]
      obtain rfl := h.eq_of_id hu ht huid
      refine ⟨_, mem_share.mpr ⟨u, hu, hrun, rfl⟩, ?_⟩
      rw [howns u hu hrun, hextra]
      exact hown
  · refine (share_map (fun u => by split <;> simp [hf]) fun u hu hurun => ?_).symm
    rw [howns u hu hurun, hextra]
    split
    · exact hfn u _
    · rfl

theorem share_own_other (h : Serial q) (ht : t ∈ q) (hid : t.id = id) (hrun : t.runId ≠ runId)
    (hf : ∀ u, (f u).runId = u.runId) :
    share runId (QueueTable.own worker id extra f q).2 = q.share runId := by
  refine share_map_other (fun u => by split <;> simp [hf]) fun u hu hurun => if_neg fun hown => ?_
  simp only [owns, Bool.and_eq_true, decide_eq_true_eq] at hown
  obtain rfl := h.eq_of_id hu ht (hown.1.1.1.trans hid.symm)
  exact hrun hurun

end Own

/-- The numbers of the run's tasks among those locked. -/
def lockedShare (runId : Nat) (q : QueueTable Worker) (locked : List Nat) : List Nat :=
  (q.filter fun t => t.runId = runId && t.id ∈ locked).map fun t => q.rank runId t.id

variable {locked : List Nat} {now : Nat} {matching : QueueTask Worker → Bool}

theorem Serial.mem_lockedShare (h : Serial q) (ht : t ∈ q) (hrun : t.runId = runId) :
    q.rank runId t.id ∈ lockedShare runId q locked ↔ t.id ∈ locked := by
  unfold lockedShare
  simp only [List.mem_map, List.mem_filter, Bool.and_eq_true, decide_eq_true_eq]
  constructor
  · rintro ⟨u, ⟨hu, hurun, hlocked⟩, hrank⟩
    rwa [h.rank_inj ht hu hrun hurun hrank.symm]
  · intro hlocked
    exact ⟨t, ⟨ht, hrun, hlocked⟩, rfl⟩

/-- The first of all the tasks is the first of its run's. -/
theorem Serial.eligible_share (h : Serial q) (hm : ∀ (t : QueueTask Worker) g,
    matching (t.renumber g) = matching t) (hrun : t.runId = runId)
    (heligible : eligible matching locked q = some t) :
    eligible matching (lockedShare runId q locked) (q.share runId) =
      some (t.renumber (q.rank runId)) := by
  obtain ⟨⟨ht, hmatch, hfree⟩, hfirst⟩ := eligible_spec heligible
  have hmem : t.renumber (q.rank runId) ∈ q.share runId := mem_share.mpr ⟨t, ht, hrun, rfl⟩
  have hfree' : (t.renumber (q.rank runId)).id ∉ lockedShare runId q locked :=
    fun hc => hfree ((h.mem_lockedShare ht hrun).mp hc)
  cases hshare : eligible matching (lockedShare runId q locked) (q.share runId) with
  | none => exact absurd (eligible_eq_none.mp hshare _ hmem ((hm t _).trans hmatch)) hfree'
  | some x =>
      obtain ⟨⟨hx, hxmatch, hxfree⟩, hxfirst⟩ := eligible_spec hshare
      obtain ⟨u, hu, hurun, rfl⟩ := mem_share.mp hx
      have hufree : u.id ∉ locked := fun hc => hxfree ((h.mem_lockedShare hu hurun).mpr hc)
      have htu := hfirst u hu ((hm u _).symm.trans hxmatch) hufree
      have hut := hxfirst _ hmem ((hm t _).trans hmatch) hfree'
      rw [QueueTask.before_iff] at htu hut
      have hid : t.id = u.id := by
        have hle := h.rank_le_iff ht hrun (t := u)
        unfold QueueTask.renumber at hut
        dsimp only at hut
        rw [hle] at hut
        omega
      rw [h.eq_of_id ht hu hid]

theorem eligible_share_none (h : Serial q) (hm : ∀ (t : QueueTask Worker) g,
    matching (t.renumber g) = matching t) (hnone : eligible matching locked q = none) :
    eligible matching (lockedShare runId q locked) (q.share runId) = none := by
  refine eligible_eq_none.mpr fun x hx hmatch => ?_
  obtain ⟨t, ht, hrun, rfl⟩ := mem_share.mp hx
  exact (h.mem_lockedShare ht hrun).mpr
    (eligible_eq_none.mp hnone t ht ((hm t _).symm.trans hmatch))

theorem Serial.claimable_share (h : Serial q) (hrun : t.runId = runId)
    (hclaimable : q.claimable now locked = some t) :
    (q.share runId).claimable now (lockedShare runId q locked) =
      some (t.renumber (q.rank runId)) := by
  have hdue : ∀ (t : QueueTask Worker) g, (t.renumber g).due now = t.due now := fun _ _ => rfl
  have hexpired : ∀ (t : QueueTask Worker) g, (t.renumber g).expired now = t.expired now :=
    fun _ _ => rfl
  show (eligible (QueueTask.due now) _ _).orElse (fun _ => eligible (QueueTask.expired now) _ _) = _
  rcases claimable_spec hclaimable with hfirst | ⟨hnone, hfirst⟩
  · rw [h.eligible_share hdue hrun hfirst]
    rfl
  · rw [eligible_share_none h hdue hnone]
    exact h.eligible_share hexpired hrun hfirst

theorem mem_of_claimable (h : q.claimable now locked = some t) : t ∈ q := by
  rcases claimable_spec h with hfirst | ⟨-, hfirst⟩ <;> exact (eligible_spec hfirst).1.1

section Claim

variable {worker : Worker} {leaseSeconds : Nat} {q' : QueueTable Worker}

/-- A claim of one of the run's tasks. -/
theorem Serial.claim_share (h : Serial q) (hrun : t.runId = runId)
    (hclaim : q.claim worker now leaseSeconds locked = some (t, q')) :
    (q.share runId).claim worker now leaseSeconds (lockedShare runId q locked) =
      some (t.renumber (q.rank runId), q'.share runId) := by
  obtain ⟨found, hfound, hpair⟩ := Option.map_eq_some_iff.mp hclaim
  obtain ⟨rfl, rfl⟩ := Prod.mk.inj hpair
  have hmem := mem_of_claimable hfound
  unfold claim
  rw [h.claimable_share hrun hfound, Option.map_some]
  congr 2
  refine (share_map (fun u => by split <;> rfl) fun u hu hurun => ?_).symm
  have hiff : q.rank runId u.id = q.rank runId found.id ↔ u.id = found.id :=
    ⟨h.rank_inj hu hmem hurun hrun, congrArg _⟩
  unfold QueueTask.renumber QueueTask.outstanding
  simp only [hiff]
  split <;> rfl

/-- A claim of another run's task. -/
theorem Serial.claim_share_other (h : Serial q) (hrun : t.runId ≠ runId)
    (hclaim : q.claim worker now leaseSeconds locked = some (t, q')) :
    q'.share runId = q.share runId := by
  obtain ⟨found, hfound, hpair⟩ := Option.map_eq_some_iff.mp hclaim
  obtain ⟨rfl, rfl⟩ := Prod.mk.inj hpair
  refine share_map_other (fun u => by split <;> rfl) fun u hu hurun => if_neg fun hc => ?_
  simp only [Bool.and_eq_true, decide_eq_true_eq] at hc
  obtain rfl := h.eq_of_id hu (mem_of_claimable hfound) hc.1
  exact hrun hurun

end Claim

/-! ### What an operation about one run leaves -/

/-- What the operations about one run do to the whole table. -/
structure Moves (runId : Nat) (q q' : QueueTable Worker) : Prop where
  serial : Serial q'
  length_le : q.length ≤ q'.length
  kept : ∀ t ∈ q, ∃ u ∈ q', u.id = t.id ∧ u.runId = t.runId
  new : ∀ u ∈ q', u.runId = runId ∨ ∃ t ∈ q, t.runId = u.runId
  rank : ∀ other id, id ≤ q.length → q'.rank other id = q.rank other id
  others : ∀ other, other ≠ runId → q'.share other = q.share other

namespace Moves

variable {q' q'' : QueueTable Worker}

theorem refl (h : Serial q) : Moves runId q q :=
  ⟨h, le_rfl, fun t ht => ⟨t, ht, rfl, rfl⟩, fun u hu => Or.inr ⟨u, hu, rfl⟩, fun _ _ _ => rfl,
    fun _ _ => rfl⟩

theorem trans (h : Moves runId q q') (h' : Moves runId q' q'') : Moves runId q q'' where
  serial := h'.serial
  length_le := h.length_le.trans h'.length_le
  kept := by
    intro t ht
    obtain ⟨u, hu, hid, hrun⟩ := h.kept t ht
    obtain ⟨v, hv, hid', hrun'⟩ := h'.kept u hu
    exact ⟨v, hv, hid'.trans hid, hrun'.trans hrun⟩
  new := by
    intro v hv
    rcases h'.new v hv with hrun | ⟨u, hu, hrun⟩
    · exact Or.inl hrun
    · rcases h.new u hu with hrun' | ⟨t, ht, hrun'⟩
      · exact Or.inl (hrun.symm.trans hrun')
      · exact Or.inr ⟨t, ht, hrun'.trans hrun⟩
  rank other id hid := (h'.rank other id (hid.trans h.length_le)).trans (h.rank other id hid)
  others other hne := (h'.others other hne).trans (h.others other hne)

/-- An update of the rows that leaves the other runs' rows alone. -/
theorem map (h : Serial q) {f : QueueTask Worker → QueueTask Worker} (hid : ∀ t, (f t).id = t.id)
    (hrun : ∀ t, (f t).runId = t.runId)
    (hothers : ∀ other, other ≠ runId → share other (q.map f) = q.share other) :
    Moves runId q (q.map f) where
  serial := h.map hid
  length_le := by rw [List.length_map]
  kept t ht := ⟨f t, List.mem_map_of_mem ht, hid t, hrun t⟩
  new := by
    intro u hu
    obtain ⟨t, ht, rfl⟩ := List.mem_map.mp hu
    exact Or.inr ⟨t, ht, (hrun t).symm⟩
  rank other id _ := rank_map hrun id
  others := hothers

theorem enqueue (h : Serial q) (runAfter : Nat) : Moves runId q (q.enqueue runId runAfter) := by
  refine ⟨h.enqueue runId runAfter, ?_, ?_, ?_, ?_, fun other hne =>
    share_enqueue_other h (Ne.symm hne) runAfter⟩
  · unfold QueueTable.enqueue
    split <;> simp
  · intro t ht
    unfold QueueTable.enqueue
    split
    · exact ⟨t, ht, rfl, rfl⟩
    · exact ⟨t, List.mem_append_left _ ht, rfl, rfl⟩
  · intro u hu
    unfold QueueTable.enqueue at hu
    split at hu
    · exact Or.inr ⟨u, hu, rfl⟩
    · rcases List.mem_append.mp hu with hu | hu
      · exact Or.inr ⟨u, hu, rfl⟩
      · rw [List.mem_singleton.mp hu]
        exact Or.inl rfl
  · intro other id hid
    unfold QueueTable.enqueue
    split
    · rfl
    · exact rank_append hid

theorem finishOutstanding (h : Serial q) : Moves runId q (q.finishOutstanding runId) :=
  map h (fun t => by split <;> rfl) (fun t => by split <;> rfl) fun _ hne =>
    share_finishOutstanding_other (Ne.symm hne)

theorem own [DecidableEq Worker] {worker : Worker} {id : Nat} {extra : QueueTask Worker → Bool}
    {f : QueueTask Worker → QueueTask Worker} (h : Serial q) (ht : t ∈ q) (hid : t.id = id)
    (hrun : t.runId = runId) (hf : ∀ t, (f t).id = t.id ∧ (f t).runId = t.runId) :
    Moves runId q (QueueTable.own worker id extra f q).2 :=
  map h (fun t => by split <;> simp [hf]) (fun t => by split <;> simp [hf]) fun _ hne =>
    share_own_other h ht hid (fun hc => hne (hc.symm.trans hrun)) fun t => (hf t).2

theorem claim {worker : Worker} {leaseSeconds : Nat} (h : Serial q)
    (hclaim : q.claim worker now leaseSeconds locked = some (t, q')) : Moves t.runId q q' := by
  have hothers : ∀ other, other ≠ t.runId → q'.share other = q.share other :=
    fun other hne => h.claim_share_other (Ne.symm hne) hclaim
  obtain ⟨found, hfound, hpair⟩ := Option.map_eq_some_iff.mp hclaim
  obtain ⟨rfl, rfl⟩ := Prod.mk.inj hpair
  exact map h (fun u => by split <;> rfl) (fun u => by split <;> rfl) hothers

end Moves

end QueueTable

end Orqent
