/-
The revision as an optimistic lock.

A save states the revision it was based on, and is refused if that is not the draft's.
`SavesKept` is what this is for: of the saves based on one revision at most one is
accepted, every accepted save makes the revision larger, the stored graph is that of
the last accepted save, and that save was based on what the one before it left.

The revision is compared in the snapshot, and the update that follows adds one to
whatever is stored by then.  The locks make each save whole: `revision_increases` and
`last_save_stored` hold in every run.  They do not make the comparison hold where the
writes are: `saves_kept_iff` says that a run has the property exactly when every save
commits on the revision it compared (`OnBase`).
-/
import Orqent.Versions.Service
import Orqent.Service.Progress

namespace Orqent

open LockStore

variable {Value : Type}

/-! ### Revisions only grow -/

/-- What a statement does to one version row. -/
theorem Statement.exec_version {w : Statement Value} {t : Tables Value} {d : Change Value}
    (h : w.exec t = some d) (id : Nat) :
    (d.apply t).version id = t.version id ∨
      (t.version id = none ∧ (d.apply t).version id = some { status := .draft }) ∨
      ∃ row row', t.version id = some row ∧ (d.apply t).version id = some row' ∧
        row.revision ≤ row'.revision := by
  have hupdate : ∀ (v : Nat) (f : WorkflowVersion → WorkflowVersion),
      (∀ row, row.revision ≤ (f row).revision) →
      (t.version v).map (fun row => Change.putVersion v (f row)) = some d →
      (d.apply t).version id = t.version id ∨
        ∃ row row', t.version id = some row ∧ (d.apply t).version id = some row' ∧
          row.revision ≤ row'.revision := by
    intro v f hf hd
    obtain ⟨row, hrow, rfl⟩ := Option.map_eq_some_iff.mp hd
    by_cases hv : v = id
    · exact Or.inr ⟨row, f row, hv ▸ hrow, (t.version_putVersion _ _ _).trans (if_pos hv), hf row⟩
    · exact Or.inl ((t.version_putVersion _ _ _).trans (if_neg hv))
  cases w with
  | insertVersion v =>
      simp only [exec, Option.ite_none_right_eq_some, Option.some.injEq] at h
      obtain ⟨⟨-, hfresh⟩, rfl⟩ := h
      by_cases hv : v = id
      · exact Or.inr (Or.inl ⟨hv ▸ hfresh, (t.version_putVersion _ _ _).trans (if_pos hv)⟩)
      · exact Or.inl ((t.version_putVersion _ _ _).trans (if_neg hv))
  | bumpRevision v => exact (hupdate v _ (fun _ => Nat.le_succ _) h).imp_right Or.inr
  | publishVersion v versionNo =>
      exact (hupdate v (fun row => { row with status := .published, versionNo := some versionNo })
        (fun _ => Nat.le_refl _) h).imp_right Or.inr
  | deleteEdges v => exact Or.inl (by obtain rfl := Option.some.inj h; rfl)
  | deleteNodes v => exact Or.inl (by obtain rfl := Option.some.inj h; rfl)
  | insertNodes v rows => exact Or.inl (by obtain rfl := Option.some.inj h; rfl)
  | insertEdges v rows => exact Or.inl (by obtain rfl := Option.some.inj h; rfl)
  | activate v => exact Or.inl (by obtain rfl := Option.some.inj h; rfl)

/-- What was read of the versions is still there, with revisions that have only grown. -/
def Outgrown (t t' : Tables Value) : Prop :=
  ∀ id row, t.version id = some row →
    1 ≤ row.revision ∧ ∃ row', t'.version id = some row' ∧ row.revision ≤ row'.revision

theorem Outgrown.apply {t t' : Tables Value} (h : Outgrown t t') {w : Statement Value}
    {d : Change Value} (hexec : w.exec t' = some d) : Outgrown t (d.apply t') := by
  intro id row hrow
  obtain ⟨hpos, row', hrow', hle⟩ := h id row hrow
  refine ⟨hpos, ?_⟩
  rcases w.exec_version hexec id with hsame | ⟨hfresh, -⟩ | ⟨old, new, hold, hnew, hgrown⟩
  · exact ⟨row', hsame.trans hrow', hle⟩
  · exact nomatch hfresh.symm.trans hrow'
  · obtain rfl := Option.some.inj (hold.symm.trans hrow')
    exact ⟨new, hnew, Nat.le_trans hle hgrown⟩

/-- Revisions start at one, and a statement keeps it so. -/
theorem Outgrown.apply_refl {t : Tables Value} (h : Outgrown t t) {w : Statement Value}
    {d : Change Value} (hexec : w.exec t = some d) : Outgrown (d.apply t) (d.apply t) := by
  intro id row hrow
  refine ⟨?_, row, hrow, Nat.le_refl _⟩
  rcases w.exec_version hexec id with hsame | ⟨-, hnew⟩ | ⟨old, new, hold, hnew, hgrown⟩
  · exact (h id row (hsame.symm.trans hrow)).1
  · obtain rfl := Option.some.inj (hnew.symm.trans hrow)
    exact Nat.le_refl 1
  · obtain rfl := Option.some.inj (hnew.symm.trans hrow)
    exact Nat.le_trans (h id old hold).1 hgrown

theorem revision_of_version {t : Tables Value} {id : Nat} {row : WorkflowVersion}
    (h : t.version id = some row) : t.revision id = row.revision := by
  unfold Tables.revision
  rw [h]
  rfl

/-- The last accepted save of a version. -/
def lastSave (saves : List (Accepted Value)) (id : Nat) : Option (Accepted Value) :=
  saves.reverse.find? fun save => save.version = id

theorem lastSave_snoc (saves : List (Accepted Value)) (save : Accepted Value) (id : Nat) :
    lastSave (saves ++ [save]) id = if save.version = id then some save else lastSave saves id := by
  rw [lastSave, List.reverse_append, List.reverse_singleton, List.singleton_append, List.find?_cons]
  by_cases h : save.version = id <;> simp [h, lastSave]

variable [DecidableEq Value] {ι : Type} {registry : NodeRegistry Value}
  {events : List (EditEvent Value ι)} {p p' : Editing Value ι} {e : EditEvent Value ι}

/-- The commit finds the revision its call compared. -/
def OnBase (p : Editing Value ι) (e : EditEvent Value ι) : Prop :=
  ∀ save ∈ saving p e, ∀ row ∈ p.committed.version save.version, row.revision = save.base

instance : Decidable (OnBase p e) :=
  inferInstanceAs (Decidable (∀ save ∈ saving p e, ∀ row ∈ p.committed.version save.version,
    row.revision = save.base))

/-- At most one save is made in a step. -/
theorem saving_length (p : Editing Value ι) (e : EditEvent Value ι) :
    saving p e = [] ∨ ∃ save, saving p e = [save] := by
  cases e with
  | commit i =>
      simp only [saving]
      split
      · rename_i ids revision graph snap issued changes todo hopen
        cases ensureDraft ids snap with
        | none => exact Or.inl rfl
        | some draft => exact Or.inr ⟨_, rfl⟩
      · exact Or.inl rfl
  | begin i call => exact Or.inl rfl
  | issue i => exact Or.inl rfl
  | rollback i => exact Or.inl rfl

variable [DecidableEq ι]

/-- What a transaction read has been outgrown by what is committed. -/
theorem snapshots_outgrown
    (h : Trace.run (versionStore registry).poolStep (Editing.start Value ι) events = some p) :
    ∀ i t, p.opened i = some t → Outgrown t.snap p.committed := by
  have hinit : Outgrown ({} : Tables Value) {} := by
    intro id row hrow
    exact nomatch hrow
  exact (snapshot_rule (I := fun t => Outgrown t t) hinit (
    fun _ _ _ ht hexec => ht.apply_refl hexec)
    (fun _ ht => ht) (fun _ _ _ _ ht hexec => ht.apply hexec) h).2

/-- The row of a version outgrows itself in a step. -/
theorem revision_grows (hok : PoolOk (versionStore registry) p)
    (hstep : (versionStore registry).poolStep p e = some p') {id : Nat} {row : WorkflowVersion}
    (hrow : p.committed.version id = some row) :
    ∃ row', p'.committed.version id = some row' ∧ row.revision ≤ row'.revision := by
  refine hok.keeps (P := fun t => ∃ row', t.version id = some row' ∧ row.revision ≤ row'.revision)
    ?_ ⟨row, hrow, Nat.le_refl _⟩ hstep
  intro w t d h hexec
  obtain ⟨old, hold, hle⟩ := h
  rcases Statement.exec_version hexec id with
    hsame | ⟨hfresh, -⟩ | ⟨before, new, hbefore, hnew, hgrown⟩
  · exact ⟨old, hsame.trans hold, hle⟩
  · exact nomatch hfresh.symm.trans hold
  · obtain rfl := Option.some.inj (hbefore.symm.trans hold)
    exact ⟨new, hnew, Nat.le_trans hle hgrown⟩

/-! ### What every accepted save does -/

/-- What a step accepts is added to the accepted saves. -/
theorem accepted_snoc
    (hrun : Trace.run (versionStore registry).poolStep (Editing.start Value ι) events = some p)
    (hstep : (versionStore registry).poolStep p e = some p') :
    accepted registry (events ++ [e]) = accepted registry events ++
      (saving p e).map fun save => ⟨save, p'.committed.revision save.version⟩ :=
  Trace.collect_snoc hrun hstep

/-- A save that commits: on which revision, and what it leaves. -/
theorem saving_effect
    (hrun : Trace.run (versionStore registry).poolStep (Editing.start Value ι) events = some p)
    (hstep : (versionStore registry).poolStep p e = some p') {save : Save Value}
    (hsave : save ∈ saving p e) :
    ∃ row', p'.committed.version save.version = some row' ∧ 1 ≤ save.base ∧
      storedGraph p' save.version = some save.graph ∧
      ((∃ row, p.committed.version save.version = some row ∧ save.base ≤ row.revision ∧
          row'.revision = row.revision + 1) ∨
        p.committed.version save.version = none ∧ save.base = 1 ∧ row'.revision = 2) := by
  have he := step_edit (poolOk hrun) hstep
  unfold storedGraph
  generalize p'.committed = t' at he
  cases he with
  | @saved save' row _ hsaving hpublishing hrow hsnap hversion hload hgraphs =>
      obtain rfl : save = save' := List.mem_singleton.mp (hsaving ▸ hsave)
      obtain ⟨i, t, old, hopen, hold, hbase⟩ := hsnap
      obtain ⟨hpos, now, hnow, hle⟩ := snapshots_outgrown hrun i t hopen _ old hold
      obtain rfl := Option.some.inj (hrow.symm.trans hnow)
      rw [hbase] at hpos hle
      exact ⟨_, (hversion _).trans (if_pos rfl), hpos, hload, Or.inl ⟨row, hrow, hle, rfl⟩⟩
  | @savedNew save' _ hsaving hpublishing hfresh hbase hversion hload hgraphs =>
      obtain rfl : save = save' := List.mem_singleton.mp (hsaving ▸ hsave)
      refine ⟨_, (hversion _).trans (if_pos rfl), ?_, hload, Or.inr ⟨hfresh, hbase, rfl⟩⟩
      rw [hbase]
  | quiet hsaving hpublishing => exact nomatch hsaving ▸ hsave
  | created hsaving hpublishing hcreated => exact nomatch hsaving ▸ hsave
  | published hsaving hpublishing hvalid hold hversion hgraphs => exact nomatch hsaving ▸ hsave

/-- **Every accepted save makes the committed revision larger.** -/
theorem revision_increases
    (hrun : Trace.run (versionStore registry).poolStep (Editing.start Value ι) events = some p)
    (hstep : (versionStore registry).poolStep p e = some p') {save : Save Value}
    (hsave : save ∈ saving p e) :
    p.committed.revision save.version < p'.committed.revision save.version := by
  obtain ⟨row', hrow', -, -, hcase⟩ := saving_effect hrun hstep hsave
  rw [revision_of_version hrow']
  rcases hcase with ⟨row, hrow, -, hrevision⟩ | ⟨hfresh, -, hrevision⟩
  · rw [revision_of_version hrow, hrevision]
    exact Nat.lt_succ_self _
  · unfold Tables.revision
    rw [hfresh, hrevision]
    exact Nat.succ_pos 1

/-- A graph that a step changes was saved by it, or is that of a version it made. -/
theorem graph_changes (hok : PoolOk (versionStore registry) p)
    (hstep : (versionStore registry).poolStep p e = some p') (id : Nat) :
    p'.committed.graphs id = p.committed.graphs id ∨ p.committed.version id = none ∨
      ∃ save ∈ saving p e, save.version = id := by
  have he := step_edit hok hstep
  generalize p'.committed = t' at he
  cases he with
  | quiet hsaving hpublishing => exact Or.inl rfl
  | @created new _ hsaving hpublishing hcreated =>
      by_cases hid : id = new
      · exact Or.inr (Or.inl (hid ▸ hcreated.fresh))
      · exact Or.inl (hcreated.graphs id hid)
  | @saved save _ _ hsaving hpublishing hrow hsnap hversion hload hgraphs =>
      by_cases hid : id = save.version
      · exact Or.inr (Or.inr ⟨save, by rw [hsaving]; exact List.mem_cons_self, hid.symm⟩)
      · exact Or.inl (hgraphs id hid)
  | @savedNew save _ hsaving hpublishing hfresh hbase hversion hload hgraphs =>
      by_cases hid : id = save.version
      · exact Or.inr (Or.inl (hid ▸ hfresh))
      · exact Or.inl (hgraphs id hid)
  | published hsaving hpublishing hvalid hold hversion hgraphs => exact Or.inl (congrFun hgraphs id)

/-- What an accepted save left is there, or has been outgrown. -/
structure Kept (registry : NodeRegistry Value) (events : List (EditEvent Value ι))
    (p : Editing Value ι) : Prop where
  outgrown : ∀ save ∈ accepted registry events, save.base < save.revision ∧
    ∃ row, p.committed.version save.version = some row ∧ save.revision ≤ row.revision
  stored : ∀ id save, lastSave (accepted registry events) id = some save →
    storedGraph p id = some save.graph

theorem Kept.step (h : Kept registry events p)
    (hrun : Trace.run (versionStore registry).poolStep (Editing.start Value ι) events = some p)
    (hstep : (versionStore registry).poolStep p e = some p') :
    Kept registry (events ++ [e]) p' := by
  have hok := poolOk hrun
  have hsnoc := accepted_snoc hrun hstep
  constructor
  · intro save hsave
    rw [hsnoc] at hsave
    rcases List.mem_append.mp hsave with hold | hnew
    · obtain ⟨hlt, row, hrow, hle⟩ := h.outgrown save hold
      obtain ⟨row', hrow', hgrown⟩ := revision_grows hok hstep hrow
      exact ⟨hlt, row', hrow', Nat.le_trans hle hgrown⟩
    · obtain ⟨made, hmade, rfl⟩ := List.mem_map.mp hnew
      obtain ⟨row', hrow', -, -, hcase⟩ := saving_effect hrun hstep hmade
      refine ⟨?_, row', hrow', Nat.le_of_eq (revision_of_version hrow')⟩
      show made.base < p'.committed.revision made.version
      rw [revision_of_version hrow']
      rcases hcase with ⟨row, -, hle, hrevision⟩ | ⟨-, hbase, hrevision⟩ <;> omega
  · intro id save hlast
    rw [hsnoc] at hlast
    have hkept : ∀ save, lastSave (accepted registry events) id = some save →
        (∀ made ∈ saving p e, made.version ≠ id) → storedGraph p' id = some save.graph := by
      intro save hsave hother
      have hmem : save ∈ accepted registry events :=
        List.mem_reverse.mp (List.mem_of_find?_eq_some hsave)
      have hid : save.version = id := by simpa using List.find?_some hsave
      obtain ⟨-, row, hrow, -⟩ := h.outgrown save hmem
      rcases graph_changes hok hstep id with hsame | hfresh | ⟨made, hmade, hmid⟩
      · unfold storedGraph
        rw [hsame]
        exact h.stored id save hsave
      · exact nomatch (hid ▸ hrow).symm.trans hfresh
      · exact absurd hmid (hother made hmade)
    rcases saving_length p e with hnone | ⟨made, hmade⟩
    · rw [hnone, List.map_nil, List.append_nil] at hlast
      exact hkept save hlast (by rw [hnone]; exact fun _ hc => nomatch hc)
    · rw [hmade, List.map_singleton, lastSave_snoc] at hlast
      split at hlast
      · rename_i hid
        obtain rfl := Option.some.inj hlast
        have hmem : made ∈ saving p e := by rw [hmade]; exact List.mem_cons_self
        obtain ⟨-, -, -, hstored, -⟩ := saving_effect hrun hstep hmem
        exact hid ▸ hstored
      · rename_i hid
        exact hkept save hlast (by rw [hmade]; simpa using hid)

theorem kept
    (h : Trace.run (versionStore registry).poolStep (Editing.start Value ι) events = some p) :
    Kept registry events p := by
  refine Trace.run_induction (P := Kept registry)
    ⟨fun _ hc => (nomatch hc), fun _ _ hc => (nomatch hc)⟩ ?_ h
  intro tr q f q' hrun hq hstep
  exact hq.step hrun hstep

/-! ### Saves that commit on their base -/

/--
What the optimistic lock is for.  Of the saves of a draft based on one revision at most
one is accepted; every accepted save makes the revision larger; the stored graph is
that of the last accepted save; and no accepted save is based on less than what the
saves before it left.
-/
structure SavesKept (registry : NodeRegistry Value) (events : List (EditEvent Value ι)) : Prop where
  once : (accepted registry events).Pairwise fun save later =>
    save.version = later.version → save.base ≠ later.base
  increases : ∀ before e after, events = before ++ e :: after →
    ∀ p p', Trace.run (versionStore registry).poolStep (Editing.start Value ι) before = some p →
      (versionStore registry).poolStep p e = some p' →
        ∀ save ∈ saving p e,
          p.committed.revision save.version < p'.committed.revision save.version
  stored : ∀ before after, events = before ++ after →
    ∀ p, Trace.run (versionStore registry).poolStep (Editing.start Value ι) before = some p →
      ∀ id save, lastSave (accepted registry before) id = some save →
        storedGraph p id = some save.graph
  ordered : (accepted registry events).Pairwise fun save later =>
    save.version = later.version → save.revision ≤ later.base

/-- In a run whose saves commit on their base, every revision but the last was the base of one. -/
def Counted (registry : NodeRegistry Value) (events : List (EditEvent Value ι))
    (p : Editing Value ι) : Prop :=
  ∀ id row, p.committed.version id = some row → ∀ base, 1 ≤ base → base < row.revision →
    ∃ save ∈ accepted registry events, save.version = id ∧ save.base = base

theorem Counted.step (h : Counted registry events p) (hon : OnBase p e)
    (hrun : Trace.run (versionStore registry).poolStep (Editing.start Value ι) events = some p)
    (hstep : (versionStore registry).poolStep p e = some p') :
    Counted registry (events ++ [e]) p' := by
  have hsnoc := accepted_snoc hrun hstep
  have he := step_edit (poolOk hrun) hstep
  intro id row hrow base hpos hlt
  have hold : ∀ before, p.committed.version id = some before → base < before.revision →
      ∃ save ∈ accepted registry (events ++ [e]), save.version = id ∧ save.base = base := by
    intro before hbefore hbase
    obtain ⟨save, hsave, heq⟩ := h id before hbefore base hpos hbase
    exact ⟨save, by rw [hsnoc]; exact List.mem_append_left _ hsave, heq⟩
  have hnew : ∀ save ∈ saving p e, save.version = id → save.base = base →
      ∃ save ∈ accepted registry (events ++ [e]), save.version = id ∧ save.base = base := by
    intro save hsave hid hbase
    refine ⟨⟨save, p'.committed.revision save.version⟩, ?_, hid, hbase⟩
    rw [hsnoc]
    exact List.mem_append_right _ (List.mem_map.mpr ⟨save, hsave, rfl⟩)
  generalize p'.committed = t' at he hrow
  cases he with
  | quiet hsaving hpublishing => exact hold row hrow hlt
  | created hsaving hpublishing hcreated =>
      rw [hcreated.version] at hrow
      split at hrow
      · obtain rfl := Option.some.inj hrow
        exact absurd hlt (Nat.not_lt.mpr hpos)
      · exact hold row hrow hlt
  | @saved save before _ hsaving hpublishing hbefore hsnap hversion hload hgraphs =>
      have hmem : save ∈ saving p e := by rw [hsaving]; exact List.mem_cons_self
      rw [hversion] at hrow
      split at hrow
      · rename_i hid
        obtain rfl := Option.some.inj hrow
        rcases Nat.lt_succ_iff_lt_or_eq.mp hlt with hless | heq
        · exact hold before (hid ▸ hbefore) hless
        · exact hnew save hmem hid ((hon save hmem before hbefore).symm.trans heq.symm)
      · exact hold row hrow hlt
  | @savedNew save _ hsaving hpublishing hfresh hbase hversion hload hgraphs =>
      have hmem : save ∈ saving p e := by rw [hsaving]; exact List.mem_cons_self
      rw [hversion] at hrow
      split at hrow
      · rename_i hid
        obtain rfl := Option.some.inj hrow
        have hone : base = 1 := Nat.le_antisymm (Nat.le_of_lt_succ hlt) hpos
        exact hnew save hmem hid (hbase.trans hone.symm)
      · exact hold row hrow hlt
  | @published pub before _ _ hsaving hpublishing hvalid hbefore hversion hgraphs =>
      rw [hversion] at hrow
      split at hrow
      · rename_i hid
        obtain rfl := Option.some.inj hrow
        exact hold before (hid ▸ hbefore) hlt
      · exact hold row hrow hlt

theorem counted
    (h : Trace.run (versionStore registry).poolStep (Editing.start Value ι) events = some p)
    (halong : Trace.Along (versionStore registry).poolStep OnBase (Editing.start Value ι) events) :
    Counted registry events p := by
  refine Trace.run_induction_along (P := Counted registry) ?_ ?_ h halong
  · intro id row hrow
    exact nomatch hrow
  · intro tr q f q' hrun hq hon hstep
    exact hq.step hon hrun hstep

/-- A save that commits on its base is based on no less than what was left before. -/
theorem Kept.before_onBase (h : Kept registry events p) (hon : OnBase p e) {save : Accepted Value}
    (hsave : save ∈ accepted registry events) {later : Save Value} (hlater : later ∈ saving p e)
    (hversion : save.version = later.version) :
    save.base < save.revision ∧ save.revision ≤ later.base := by
  obtain ⟨hlt, row, hrow, hle⟩ := h.outgrown save hsave
  refine ⟨hlt, ?_⟩
  rw [hversion] at hrow
  rw [← hon later hlater row hrow]
  exact hle

/-- A run whose saves commit on their base loses none. -/
theorem kept_of_onBase
    (h : Trace.run (versionStore registry).poolStep (Editing.start Value ι) events = some p)
    (halong : Trace.Along (versionStore registry).poolStep OnBase (Editing.start Value ι) events) :
    SavesKept registry events := by
  have hordered : (accepted registry events).Pairwise fun save later =>
      save.version = later.version → save.base < later.base ∧ save.revision ≤ later.base := by
    refine Trace.run_induction_along (P := fun tr _ =>
      (accepted registry tr).Pairwise fun save later =>
        save.version = later.version → save.base < later.base ∧ save.revision ≤ later.base)
      List.Pairwise.nil ?_ h halong
    intro tr q f q' hrun hq hon hstep
    rw [accepted_snoc hrun hstep, List.pairwise_append]
    refine ⟨hq, ?_, ?_⟩
    · rcases saving_length q f with hnone | ⟨made, hmade⟩
      · rw [hnone]
        exact List.Pairwise.nil
      · rw [hmade]
        exact List.pairwise_singleton _ _
    · intro save hsave later hlater hversion
      obtain ⟨made, hmade, rfl⟩ := List.mem_map.mp hlater
      obtain ⟨hlt, hle⟩ := (kept hrun).before_onBase hon hsave hmade hversion
      exact ⟨Nat.lt_of_lt_of_le hlt hle, hle⟩
  refine ⟨hordered.imp fun hpair hversion => Nat.ne_of_lt (hpair hversion).1, ?_, ?_,
    hordered.imp fun hpair hversion => (hpair hversion).2⟩
  · intro before f after _ q q' hq hstep save hsave
    exact revision_increases hq hstep hsave
  · intro before after _ q hq id save hsave
    exact (kept hq).stored id save hsave

/-- A run that loses no save has all its saves commit on their base. -/
theorem onBase_of_once
    (h : Trace.run (versionStore registry).poolStep (Editing.start Value ι) events = some p)
    (honce : (accepted registry events).Pairwise fun save later =>
      save.version = later.version → save.base ≠ later.base) :
    Trace.Along (versionStore registry).poolStep OnBase (Editing.start Value ι) events := by
  refine Trace.run_induction (P := fun tr _ => ((accepted registry tr).Pairwise fun save later =>
    save.version = later.version → save.base ≠ later.base) →
      Trace.Along (versionStore registry).poolStep OnBase (Editing.start Value ι) tr)
    (fun _ => Trace.along_nil) ?_ h honce
  intro tr q f q' hrun ih hstep hall
  rw [accepted_snoc hrun hstep, List.pairwise_append] at hall
  obtain ⟨hbefore, -, hlast⟩ := hall
  have halong := ih hbefore
  refine (Trace.along_snoc hrun).mpr ⟨halong, fun save hsave row hrow => ?_⟩
  obtain ⟨row', -, hpos, -, hcase⟩ := saving_effect hrun hstep hsave
  rcases hcase with ⟨now, hnow, hle, -⟩ | ⟨hfresh, -⟩
  · obtain rfl := Option.some.inj (hnow.symm.trans hrow)
    by_contra hne
    -- The first save that is late: its base was the base of one before.
    obtain ⟨first, hfirst, hversion, hbase⟩ := counted hrun halong save.version now hnow save.base
      hpos (Nat.lt_of_le_of_ne hle fun hc => hne hc.symm)
    exact hlast first hfirst _ (List.mem_map.mpr ⟨save, hsave, rfl⟩) hversion hbase
  · exact nomatch hfresh.symm.trans hrow

/--
**No accepted save is lost, as long as every save commits on its base.**  In every run
of any number of calls, in any order of their steps: at most one save of a draft is
accepted for each base, every accepted save makes the revision larger, the stored graph
is always that of the last accepted save, and that one was not based on less than the
saves before it left; if and only if every save that commits finds the revision of its
draft where its call read it.
-/
theorem saves_kept_iff
    (h : Trace.run (versionStore registry).poolStep (Editing.start Value ι) events = some p) :
    SavesKept registry events ↔
      Trace.Along (versionStore registry).poolStep OnBase (Editing.start Value ι) events :=
  ⟨fun hkept => onBase_of_once h hkept.once, kept_of_onBase h⟩

/-! ### Two editors at once -/

/-- The draft is made; two editors, who have both read it at revision 1, begin to save; the
first one's save commits, and the second one's statements have followed. -/
def twoEditors : List (EditEvent Unit Nat) :=
  wholeCall 0 (.getDraft ⟨1, 1, 1⟩) 1 ++ [.begin 1 (.replaceDraft ⟨2, 1, 1⟩ 1 rejoinGraph)] ++
    [.begin 2 (.replaceDraft ⟨2, 6, 6⟩ 1 .empty)] ++ List.replicate 5 (.issue 1) ++
    [.commit 1] ++ List.replicate 5 (.issue 2)

/-- The second save is not committed: the one that was is kept. -/
theorem rolledBack_kept : SavesKept rejoinRegistry (twoEditors ++ [.rollback 2]) := by
  have heval : (Trace.run (versionStore rejoinRegistry).poolStep (Editing.start Unit Nat)
      (twoEditors ++ [.rollback 2])).isSome = true := by
    decide +kernel
  obtain ⟨p, hrun⟩ := Option.isSome_iff_exists.mp heval
  exact (saves_kept_iff hrun).mpr (by decide +kernel)

/-- The second save commits: both were accepted for revision 1, and the first one is lost. -/
theorem twoEditors_lose_save :
    ∃ p, Trace.run (versionStore rejoinRegistry).poolStep (Editing.start Unit Nat)
        (twoEditors ++ [.commit 2]) = some p ∧
      p.committed.revision 1 = 3 ∧ storedGraph p 1 = some .empty ∧
      ¬ SavesKept rejoinRegistry (twoEditors ++ [.commit 2]) := by
  have heval : (Trace.run (versionStore rejoinRegistry).poolStep (Editing.start Unit Nat)
      (twoEditors ++ [.commit 2])).map
        (fun p => (p.committed.revision 1, storedGraph p 1)) = some (3, some .empty) := by
    decide +kernel
  obtain ⟨p, hrun, hvalues⟩ := Option.map_eq_some_iff.mp heval
  obtain ⟨hrevision, hstored⟩ := Prod.mk.inj hvalues
  refine ⟨p, hrun, hrevision, hstored, fun hkept => ?_⟩
  exact absurd hkept.once (by decide +kernel)

end Orqent
