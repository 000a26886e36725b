/-
A published version is what was validated, and stays that.

`VersionsFrozen` is the property: in every state of a run, the graph of a published
version is the one its publishing transaction validated, and it is the same in every
later state.

It rests on when the commits come, for neither transaction writes what it decided on.
A publish validates the graph in its snapshot, and then sets the status of a row whose
graph may have been replaced since.  A save finds a draft in its snapshot, and then
deletes and inserts by the version's id alone; by then the version may be published.
`InTime` says that a commit comes in time, and `versions_frozen_iff` that a run has the
property exactly when all its commits do.
-/
import Orqent.Versions.Service
import Orqent.Service.Progress

namespace Orqent

open LockStore

variable {Value : Type}

/-! ### Published versions -/

theorem isPublished_iff {t : Tables Value} {id : Nat} :
    t.isPublished id = true ↔ ∃ row, t.version id = some row ∧ row.status = .published := by
  unfold Tables.isPublished
  rw [Option.any_eq_true]
  simp

/-- A version that is not there is not published. -/
theorem not_published_of_fresh {t : Tables Value} {id : Nat} (h : t.version id = none) :
    t.isPublished id ≠ true := by
  intro hc
  obtain ⟨row, hrow, -⟩ := isPublished_iff.mp hc
  exact nomatch h.symm.trans hrow

variable [DecidableEq Value] {ι : Type} {registry : NodeRegistry Value}
  {events : List (EditEvent Value ι)} {p p' : Editing Value ι} {e : EditEvent Value ι}

/--
The commit comes in time: a publish finds the graph it validated; a save finds that its
version has not been published, or stores the graph that is there.
-/
def InTime (p : Editing Value ι) (e : EditEvent Value ι) : Prop :=
  (∀ pub ∈ publishing p e, storedGraph p pub.version = some pub.graph) ∧
    ∀ save ∈ saving p e, p.committed.isPublished save.version = true →
      storedGraph p save.version = some save.graph

instance : Decidable (InTime p e) := inferInstanceAs (Decidable (_ ∧ _))

/-! ### What one step does to a published version -/

/--
What is published stays published, and its graph is kept, unless the step saves that
very version.
-/
theorem Edit.published_kept {t' : Tables Value} (he : Edit registry p e t') {id : Nat}
    (h : p.committed.isPublished id = true) :
    t'.isPublished id = true ∧
      (t'.graphs id = p.committed.graphs id ∨
        ∃ save ∈ saving p e, save.version = id ∧ loadGraph (t'.graphs id) = some save.graph) := by
  obtain ⟨row, hrow, hstatus⟩ := isPublished_iff.mp h
  cases he with
  | quiet hsaving hpublishing => exact ⟨h, Or.inl rfl⟩
  | @created new _ hsaving hpublishing hcreated =>
      have hne : new ≠ id := fun hc => not_published_of_fresh (hc ▸ hcreated.fresh) h
      refine ⟨isPublished_iff.mpr ⟨row, ?_, hstatus⟩, Or.inl (hcreated.graphs id hne.symm)⟩
      rw [hcreated.version, if_neg hne, hrow]
  | @saved save old _ hsaving hpublishing hold hsnap hversion hload hgraphs =>
      by_cases hid : save.version = id
      · subst hid
        obtain rfl : old = row := Option.some.inj (hold.symm.trans hrow)
        refine ⟨isPublished_iff.mpr ⟨_, (hversion _).trans (if_pos rfl), hstatus⟩, Or.inr ?_⟩
        exact ⟨save, by rw [hsaving]; exact List.mem_cons_self, rfl, hload⟩
      · refine ⟨isPublished_iff.mpr ⟨row, ?_, hstatus⟩, Or.inl (hgraphs id fun hc => hid hc.symm)⟩
        rw [hversion, if_neg hid, hrow]
  | @savedNew save _ hsaving hpublishing hfresh hbase hversion hload hgraphs =>
      have hne : save.version ≠ id := fun hc => not_published_of_fresh (hc ▸ hfresh) h
      refine ⟨isPublished_iff.mpr ⟨row, ?_, hstatus⟩, Or.inl (hgraphs id hne.symm)⟩
      rw [hversion, if_neg hne, hrow]
  | @published pub old _ _ hsaving hpublishing hvalid hold hversion hgraphs =>
      refine ⟨isPublished_iff.mpr ?_, Or.inl (congrFun hgraphs id)⟩
      by_cases hid : pub.version = id
      · exact ⟨_, (hversion id).trans (if_pos hid), rfl⟩
      · exact ⟨row, by rw [hversion, if_neg hid, hrow], hstatus⟩

/-- What is published after a step was so before, or the step published it. -/
theorem Edit.published_by {t' : Tables Value} (he : Edit registry p e t') {id : Nat}
    (h : t'.isPublished id = true) :
    p.committed.isPublished id = true ∨ ∃ pub ∈ publishing p e, pub.version = id := by
  obtain ⟨row, hrow, hstatus⟩ := isPublished_iff.mp h
  cases he with
  | quiet hsaving hpublishing => exact Or.inl h
  | @created new _ hsaving hpublishing hcreated =>
      rw [hcreated.version] at hrow
      split at hrow
      · obtain rfl := Option.some.inj hrow
        exact nomatch hstatus
      · exact Or.inl (isPublished_iff.mpr ⟨row, hrow, hstatus⟩)
  | @saved save old _ hsaving hpublishing hold hsnap hversion hload hgraphs =>
      rw [hversion] at hrow
      split at hrow
      · rename_i hid
        obtain rfl := Option.some.inj hrow
        exact Or.inl (isPublished_iff.mpr ⟨old, hid ▸ hold, hstatus⟩)
      · exact Or.inl (isPublished_iff.mpr ⟨row, hrow, hstatus⟩)
  | @savedNew save _ hsaving hpublishing hfresh hbase hversion hload hgraphs =>
      rw [hversion] at hrow
      split at hrow
      · obtain rfl := Option.some.inj hrow
        exact nomatch hstatus
      · exact Or.inl (isPublished_iff.mpr ⟨row, hrow, hstatus⟩)
  | @published pub old _ _ hsaving hpublishing hvalid hold hversion hgraphs =>
      rw [hversion] at hrow
      split at hrow
      · rename_i hid
        exact Or.inr ⟨pub, by rw [hpublishing]; exact List.mem_cons_self, hid⟩
      · exact Or.inl (isPublished_iff.mpr ⟨row, hrow, hstatus⟩)

/-- A publication is of a graph that validates; it changes no graph. -/
theorem Edit.publishing_valid {t' : Tables Value} (he : Edit registry p e t')
    {pub : Publication Value} (hpub : pub ∈ publishing p e) :
    (validateGraph pub.graph registry).isValid = true ∧ t'.isPublished pub.version = true ∧
      t'.graphs = p.committed.graphs := by
  cases he with
  | @published pub' old _ _ hsaving hpublishing hvalid hold hversion hgraphs =>
      obtain rfl : pub = pub' := List.mem_singleton.mp (hpublishing ▸ hpub)
      exact ⟨hvalid, isPublished_iff.mpr ⟨_, (hversion _).trans (if_pos rfl), rfl⟩, hgraphs⟩
  | quiet hsaving hpublishing => exact nomatch hpublishing ▸ hpub
  | created hsaving hpublishing hcreated => exact nomatch hpublishing ▸ hpub
  | saved hsaving hpublishing hold hsnap hversion hload hgraphs => exact nomatch hpublishing ▸ hpub
  | savedNew hsaving hpublishing hfresh hbase hversion hload hgraphs =>
      exact nomatch hpublishing ▸ hpub

/-- A save of a version that was there leaves its graph. -/
theorem Edit.saving_stored {t' : Tables Value} (he : Edit registry p e t') {save : Save Value}
    (hsave : save ∈ saving p e) : loadGraph (t'.graphs save.version) = some save.graph := by
  cases he with
  | @saved save' old _ hsaving hpublishing hold hsnap hversion hload hgraphs =>
      obtain rfl : save = save' := List.mem_singleton.mp (hsaving ▸ hsave)
      exact hload
  | @savedNew save' _ hsaving hpublishing hfresh hbase hversion hload hgraphs =>
      obtain rfl : save = save' := List.mem_singleton.mp (hsaving ▸ hsave)
      exact hload
  | quiet hsaving hpublishing => exact nomatch hsaving ▸ hsave
  | created hsaving hpublishing hcreated => exact nomatch hsaving ▸ hsave
  | published hsaving hpublishing hvalid hold hversion hgraphs => exact nomatch hsaving ▸ hsave

/-! ### Runs whose commits come in time -/

variable [DecidableEq ι]

/--
In every state of the run, a published version has been validated, its graph is the one
that was, whoever published it, and neither its status nor its graph changes any more.
-/
def VersionsFrozen (registry : NodeRegistry Value) (events : List (EditEvent Value ι)) : Prop :=
  ∀ before after, events = before ++ after →
    ∀ p, Trace.run (versionStore registry).poolStep (Editing.start Value ι) before = some p →
      ∀ id, p.committed.isPublished id = true →
        (∃ pub ∈ publications registry before, pub.version = id) ∧
          (∀ pub ∈ publications registry before, pub.version = id →
            (validateGraph pub.graph registry).isValid = true ∧
              storedGraph p id = some pub.graph) ∧
          ∀ later rest, after = later ++ rest →
            ∀ p', Trace.run (versionStore registry).poolStep p later = some p' →
              p'.committed.isPublished id = true ∧ storedGraph p' id = storedGraph p id

/-- The published versions are the publications so far, with the graphs that were validated. -/
structure Validated (registry : NodeRegistry Value) (events : List (EditEvent Value ι))
    (p : Editing Value ι) : Prop where
  published : ∀ id, p.committed.isPublished id = true →
    ∃ pub ∈ publications registry events, pub.version = id
  stored : ∀ pub ∈ publications registry events,
    (validateGraph pub.graph registry).isValid = true ∧
      p.committed.isPublished pub.version = true ∧ storedGraph p pub.version = some pub.graph

theorem Validated.step (h : Validated registry events p) (hin : InTime p e)
    (he : Edit registry p e p'.committed)
    (hpubs : publications registry (events ++ [e]) =
      publications registry events ++ publishing p e) :
    Validated registry (events ++ [e]) p' := by
  constructor
  · intro id hid
    rw [hpubs]
    rcases he.published_by hid with hbefore | ⟨pub, hpub, rfl⟩
    · obtain ⟨pub, hpub, rfl⟩ := h.published id hbefore
      exact ⟨pub, List.mem_append_left _ hpub, rfl⟩
    · exact ⟨pub, List.mem_append_right _ hpub, rfl⟩
  · intro pub hpub
    rw [hpubs] at hpub
    rcases List.mem_append.mp hpub with hold | hnew
    · obtain ⟨hvalid, hbefore, hstored⟩ := h.stored pub hold
      obtain ⟨hafter, hkept | ⟨save, hsave, hversion, hload⟩⟩ := he.published_kept hbefore
      · exact ⟨hvalid, hafter, by rw [storedGraph, hkept]; exact hstored⟩
      · refine ⟨hvalid, hafter, ?_⟩
        have hsame := hin.2 save hsave (hversion ▸ hbefore)
        rw [hversion] at hsame
        unfold storedGraph
        rw [hload, ← hsame, hstored]
    · obtain ⟨hvalid, hafter, hgraphs⟩ := he.publishing_valid hnew
      exact ⟨hvalid, hafter, by rw [storedGraph, hgraphs]; exact hin.1 pub hnew⟩

/-- What a step publishes is added to the publications. -/
theorem publications_snoc
    (hrun : Trace.run (versionStore registry).poolStep (Editing.start Value ι) events = some p)
    (hstep : (versionStore registry).poolStep p e = some p') :
    publications registry (events ++ [e]) = publications registry events ++ publishing p e :=
  Trace.collect_snoc hrun hstep

/-- In a run whose commits come in time, the published versions are as validated. -/
theorem validated
    (h : Trace.run (versionStore registry).poolStep (Editing.start Value ι) events = some p)
    (halong : Trace.Along (versionStore registry).poolStep InTime (Editing.start Value ι) events) :
    Validated registry events p := by
  refine Trace.run_induction_along (P := Validated registry) ⟨?_, fun _ hpub => nomatch hpub⟩ ?_ h
    halong
  · intro id hid
    exact absurd hid (not_published_of_fresh rfl)
  · intro tr q f q' hrun hq hin hstep
    exact hq.step hin (step_edit (poolOk hrun) hstep) (publications_snoc hrun hstep)

/-- A run whose commits come in time freezes what it publishes. -/
theorem frozen_of_inTime
    (halong : Trace.Along (versionStore registry).poolStep InTime (Editing.start Value ι) events) :
    VersionsFrozen registry events := by
  intro before after hsplit q hq id hid
  subst hsplit
  have hbefore : Trace.Along (versionStore registry).poolStep InTime
    (Editing.start Value ι) before :=
    halong.of_append
  have hvalidated := validated hq hbefore
  refine ⟨hvalidated.published id hid, ?_, ?_⟩
  · intro pub hpub hversion
    subst hversion
    exact ⟨(hvalidated.stored pub hpub).1, (hvalidated.stored pub hpub).2.2⟩
  · intro later rest hsplit q' hq'
    subst hsplit
    obtain ⟨pub, hpub, rfl⟩ := hvalidated.published id hid
    have hrun : Trace.run (versionStore registry).poolStep (Editing.start Value ι) (before ++ later)
        = some q' := by
      rw [Trace.run_append, hq]
      exact hq'
    have halong' : Trace.Along (versionStore registry).poolStep InTime (Editing.start Value ι)
        (before ++ later) := by
      rw [← List.append_assoc] at halong
      exact halong.of_append
    have hmem : pub ∈ publications registry (before ++ later) := by
      unfold publications
      rw [Trace.collect_append hq]
      exact List.mem_append_left _ hpub
    obtain ⟨-, hpublished, hstored⟩ := (validated hrun halong').stored pub hmem
    exact ⟨hpublished, hstored.trans (hvalidated.stored pub hpub).2.2.symm⟩

/-! ### A commit that does not come in time -/

/-- What holds of a run holds of its beginning. -/
theorem VersionsFrozen.of_snoc (h : VersionsFrozen registry (events ++ [e])) :
    VersionsFrozen registry events := by
  intro before after hsplit q hq id hid
  subst hsplit
  obtain ⟨hpub, hstored, hlater⟩ := h before (after ++ [e]) (by simp) q hq id hid
  refine ⟨hpub, hstored, ?_⟩
  intro later rest hsplit
  subst hsplit
  exact hlater later (rest ++ [e]) (by simp)

/-- The last commit of a run that keeps its published versions comes in time. -/
theorem VersionsFrozen.inTime_last
    (hrun : Trace.run (versionStore registry).poolStep (Editing.start Value ι) events = some p)
    (hstep : (versionStore registry).poolStep p e = some p')
    (h : VersionsFrozen registry (events ++ [e])) : InTime p e := by
  have he := step_edit (poolOk hrun) hstep
  have hrun' := Trace.run_snoc hrun hstep
  constructor
  · intro pub hpub
    obtain ⟨-, hpublished, hgraphs⟩ := he.publishing_valid hpub
    have hmem : pub ∈ publications registry (events ++ [e]) := by
      rw [publications_snoc hrun hstep]
      exact List.mem_append_right _ hpub
    obtain ⟨-, hstored, -⟩ := h (events ++ [e]) [] (by simp) p' hrun' pub.version hpublished
    have hafter := (hstored pub hmem rfl).2
    rwa [storedGraph, hgraphs] at hafter
  · intro save hsave hpublished
    obtain ⟨-, -, hlater⟩ := h events [e] rfl p hrun save.version hpublished
    have hkept := (hlater [e] [] rfl p' (Trace.run_singleton.trans hstep)).2
    rw [← hkept]
    exact he.saving_stored hsave

/-- A run that freezes what it publishes has all its commits in time. -/
theorem inTime_of_frozen
    (h : Trace.run (versionStore registry).poolStep (Editing.start Value ι) events = some p)
    (hfrozen : VersionsFrozen registry events) :
    Trace.Along (versionStore registry).poolStep InTime (Editing.start Value ι) events := by
  refine Trace.run_induction (P := fun tr _ => VersionsFrozen registry tr →
    Trace.Along (versionStore registry).poolStep InTime (Editing.start Value ι) tr)
    (fun _ => Trace.along_nil) ?_ h hfrozen
  intro tr q f q' hrun ih hstep hall
  exact (Trace.along_snoc hrun).mpr ⟨ih hall.of_snoc, hall.inTime_last hrun hstep⟩

/--
**A published version is immutable and exactly what was validated, as long as the commits
come in time.**  In every run of any number of calls, in any order of their steps: every
published version has the graph that was validated, and keeps it, if and only if every
publish that commits finds the graph it validated and every save that commits finds its
version unpublished, or stores the graph that is there.
-/
theorem versions_frozen_iff
    (h : Trace.run (versionStore registry).poolStep (Editing.start Value ι) events = some p) :
    VersionsFrozen registry events ↔
      Trace.Along (versionStore registry).poolStep InTime (Editing.start Value ι) events :=
  ⟨inTime_of_frozen h, frozen_of_inTime⟩

/-! ### A save that comes late -/

/-- The draft is made and saved; a second editor, who has cleared the canvas, begins to
save it; the workflow is published; the second save goes on. -/
def lateSave : List (EditEvent Unit Nat) :=
  wholeCall 0 (.getDraft ⟨1, 1, 1⟩) 1 ++ wholeCall 1 (.replaceDraft ⟨2, 1, 1⟩ 1 rejoinGraph) 5 ++
    [.begin 2 (.replaceDraft ⟨2, 6, 6⟩ 2 .empty)] ++ wholeCall 3 .publish 2 ++
    List.replicate 5 (.issue 2)

/-- The late save is not committed: everything that was came in time. -/
theorem rolledBack_frozen :
    VersionsFrozen rejoinRegistry (lateSave ++ [.rollback 2]) := by
  have heval : (Trace.run (versionStore rejoinRegistry).poolStep (Editing.start Unit Nat)
      (lateSave ++ [.rollback 2])).isSome = true := by
    decide +kernel
  obtain ⟨p, hrun⟩ := Option.isSome_iff_exists.mp heval
  exact (versions_frozen_iff hrun).mpr (by decide +kernel)

/--
The late save commits: the published version has the cleared canvas now, which no
transaction validated.
-/
theorem lateSave_rewrites_published :
    ∃ p, Trace.run (versionStore rejoinRegistry).poolStep (Editing.start Unit Nat)
        (lateSave ++ [.commit 2]) = some p ∧
      p.committed.isPublished 1 = true ∧ storedGraph p 1 = some .empty ∧
      (validateGraph WorkflowGraph.empty rejoinRegistry).isValid = false ∧
      ¬ VersionsFrozen rejoinRegistry (lateSave ++ [.commit 2]) := by
  have heval : (Trace.run (versionStore rejoinRegistry).poolStep (Editing.start Unit Nat)
      (lateSave ++ [.commit 2])).map
        (fun p => (p.committed.isPublished 1, storedGraph p 1)) = some (true, some .empty) := by
    decide +kernel
  obtain ⟨p, hrun, hvalues⟩ := Option.map_eq_some_iff.mp heval
  obtain ⟨hpublished, hstored⟩ := Prod.mk.inj hvalues
  have hinvalid : (validateGraph WorkflowGraph.empty rejoinRegistry).isValid = false := by decide
  refine ⟨p, hrun, hpublished, hstored, hinvalid, fun hfrozen => ?_⟩
  obtain ⟨⟨pub, hpub, hversion⟩, hall, -⟩ := hfrozen _ [] (by simp) p hrun 1 hpublished
  obtain ⟨hvalid, hgraph⟩ := hall pub hpub hversion
  rw [← Option.some.inj (hstored.symm.trans hgraph), hinvalid] at hvalid
  exact nomatch hvalid

end Orqent
