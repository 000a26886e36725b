/-
The draft of a workflow, as those who edit it meet it.

To an editor the versions of a workflow come to three calls: read the draft, replace it if
its revision is still the one that was read, and publish it.  `Drafts` says what these do,
without rows and statements; where there is no draft, the one that a call would make counts
as the draft.

`shows_call` connects this to the service.  Calls that are made one after another do to the
rows what they do here, and are refused where they are refused here.
-/
import Orqent.Versions.Opening

namespace Orqent.Builder

open LockStore

/-! ### The draft -/

/-- The draft of a workflow: its graph, and the revision the graph has come to. -/
structure Draft (G : Type) where
  revision : Nat
  graph : G
deriving DecidableEq, Repr

/-- The draft of a workflow, and the graph of its active version. -/
structure Drafts (G : Type) where
  draft : Option (Draft G) := none
  active : Option G := none
deriving DecidableEq, Repr

namespace Drafts

variable {G : Type} (s : Drafts G) (blank : G)

/-- The draft there is, or the one that is made when it is asked for. -/
def current : Draft G := s.draft.getD ⟨1, s.active.getD blank⟩

/-- The draft is there once it was read. -/
def getDraft : Drafts G := { s with draft := some (s.current blank) }

/-- A save that is based on the current revision. -/
def replaceDraft (revision : Nat) (graph : G) : Option (Drafts G) :=
  if (s.current blank).revision = revision then
    some { s with draft := some ⟨revision + 1, graph⟩ }
  else none

/-- The draft becomes the active version, if it is valid; and then there is none. -/
def publish (valid : G → Bool) : Option (Drafts G) :=
  s.draft.bind fun d => if valid d.graph then some ⟨none, some d.graph⟩ else none

@[simp] theorem current_getDraft : (s.getDraft blank).current blank = s.current blank := rfl

variable {s s' : Drafts G} {blank : G}

theorem current_replaceDraft {revision : Nat} {graph : G}
    (h : s.replaceDraft blank revision graph = some s') :
    (s.current blank).revision = revision ∧ s'.current blank = ⟨revision + 1, graph⟩ := by
  unfold replaceDraft at h
  split at h
  · rename_i hrevision
    obtain rfl := Option.some.inj h
    exact ⟨hrevision, rfl⟩
  · cases h

/-- Publishing leaves the content of the draft as it was, and starts its revisions again. -/
theorem current_publish (blank : G) {valid : G → Bool} (h : s.publish valid = some s') :
    valid (s.current blank).graph = true ∧ s'.current blank = ⟨1, (s.current blank).graph⟩ := by
  obtain ⟨d, hd, hvalid⟩ := Option.bind_eq_some_iff.mp h
  split at hvalid
  · rename_i hv
    obtain rfl := Option.some.inj hvalid
    simpa [current, hd] using hv
  · cases hvalid

end Drafts

/-! ### The rows behind it -/

section Rows

variable {Value : Type} [DecidableEq Value]

/-- What a call of the service is here. -/
def Drafts.serve (registry : NodeRegistry Value) (s : Drafts (WorkflowGraph Value)) :
    Call Value → Option (Drafts (WorkflowGraph Value))
  | .getDraft _ => some (s.getDraft .empty)
  | .replaceDraft _ revision graph => s.replaceDraft .empty revision graph
  | .publish => s.publish fun graph => (validateGraph graph registry).isValid

/-- Whether the id a call would give a new version is free. -/
def FreshFor (t : Tables Value) : Call Value → Prop
  | .getDraft ids | .replaceDraft ids .. => t.version ids.version = none
  | .publish => True

/-- The rows show this draft and this active version. -/
structure Shows (t : Tables Value) (s : Drafts (WorkflowGraph Value)) : Prop where
  drafted : ∀ d, s.draft = some d → ∃ id row, (∀ v, t.IsDraft v ↔ v = id) ∧
    t.version id = some row ∧ row.revision = d.revision ∧ loadGraph (t.graphs id) = some d.graph
  undrafted : s.draft = none → ∀ v, ¬ t.IsDraft v
  active : t.activeVersionId.map (fun id => loadGraph (t.graphs id)) = s.active.map some
  published : ∀ id, t.activeVersionId = some id → t.version id ≠ none ∧ ¬ t.IsDraft id
  unwritten : ∀ id, t.version id = none → t.graphs id = {}

variable {registry : NodeRegistry Value} {t t' : Tables Value}
  {s s' : Drafts (WorkflowGraph Value)} {ids : NewIds} {id : Nat} {row : WorkflowVersion}

/-- A workflow as it is created. -/
theorem shows_start : Shows ({} : Tables Value) {} where
  drafted := by
    intro d hd
    cases hd
  undrafted := by
    intro _ v hv
    obtain ⟨row, hrow, -⟩ := hv
    cases hrow
  active := rfl
  published := by
    intro id hid
    cases hid
  unwritten := fun _ _ => rfl

theorem loadGraph_blank : loadGraph ({} : GraphRows Value) = some .empty := by
  simp [loadGraph, WorkflowGraph.of?, WorkflowGraph.empty]

theorem Shows.getDraft_some (h : Shows t s) {d : Draft (WorkflowGraph Value)}
    (hd : s.draft = some d) : ∃ id row, (∀ v, t.IsDraft v ↔ v = id) ∧
      t.getDraft = some (id, row) ∧ t.version id = some row ∧ row.revision = d.revision ∧
      loadGraph (t.graphs id) = some d.graph := by
  obtain ⟨id, row, hone, hrow, hrevision, hload⟩ := h.drafted d hd
  obtain ⟨⟨i, r⟩, hfound⟩ : ∃ e, t.getDraft = some e := by
    by_contra hnone
    have hnone : t.getDraft = none := Option.eq_none_iff_forall_ne_some.mpr fun e he =>
      hnone ⟨e, he⟩
    exact t.getDraft_none_iff_isDraft.mp hnone id ((hone id).mpr rfl)
  obtain ⟨hr, hstatus⟩ := t.getDraft_eq_some hfound
  obtain rfl : i = id := (hone i).mp ⟨r, hr, hstatus⟩
  obtain rfl : r = row := Option.some.inj (hr.symm.trans hrow)
  exact ⟨i, r, hone, hfound, hrow, hrevision, hload⟩

/-- The rows after the draft was written: this is the draft, and the rest is as it was. -/
theorem Shows.written (h : Shows t s) (t' : Tables Value) (id : Nat) (row : WorkflowVersion)
    (graph : WorkflowGraph Value) (hone : ∀ v, t.IsDraft v → v = id) (hrow : row.status = .draft)
    (hother : ∀ v, v ≠ id → t'.version v = t.version v ∧ t'.graphs v = t.graphs v)
    (hversion : t'.version id = some row) (hload : loadGraph (t'.graphs id) = some graph)
    (hactive : t'.activeVersionId = t.activeVersionId) (hid : t.activeVersionId ≠ some id) :
    Shows t' { s with draft := some ⟨row.revision, graph⟩ } := by
  have hdraft : ∀ v, t'.IsDraft v ↔ v = id := by
    intro v
    by_cases hv : v = id
    · exact iff_of_true ⟨row, hv ▸ hversion, hrow⟩ hv
    · refine iff_of_false (fun hc => hv (hone v ?_)) hv
      obtain ⟨r, hr, hstatus⟩ := hc
      exact ⟨r, (hother v hv).1 ▸ hr, hstatus⟩
  refine ⟨?_, ?_, ?_, ?_, ?_⟩
  · intro d hd
    obtain rfl := Option.some.inj hd
    exact ⟨id, row, hdraft, hversion, rfl, hload⟩
  · intro hnone
    cases hnone
  · rw [hactive, ← h.active]
    cases hsource : t.activeVersionId with
    | none => rfl
    | some source =>
        have hne : source ≠ id := fun hc => hid (hsource.trans (congrArg some hc))
        simp [(hother source hne).2]
  · intro source hsource
    rw [hactive] at hsource
    have hne : source ≠ id := fun hc => hid (hsource.trans (congrArg some hc))
    refine ⟨(hother source hne).1 ▸ (h.published source hsource).1, fun hc => ?_⟩
    exact hne ((hdraft source).mp hc)
  · intro v hv
    have hne : v ≠ id := by
      rintro rfl
      rw [hversion] at hv
      cases hv
    rw [(hother v hne).2]
    exact h.unwritten v ((hother v hne).1 ▸ hv)

theorem Shows.not_active (h : Shows t s) (hid : t.IsDraft id ∨ t.version id = none) :
    t.activeVersionId ≠ some id := by
  intro hc
  obtain ⟨hthere, hnot⟩ := h.published id hc
  rcases hid with hid | hid
  · exact hnot hid
  · exact hthere hid

/-- Asking for the draft makes it where there is none, and is not refused. -/
theorem Shows.ensureDraft (registry : NodeRegistry Value) (h : Shows t s)
    (hfresh : t.version ids.version = none) :
    ∃ draft t', ensureDraft ids t = some draft ∧
      (versionStore registry).perform draft.statements t = some t' ∧
      Shows t' (s.getDraft .empty) ∧ (∀ v, t'.IsDraft v ↔ v = draft.id) ∧
      draft.revision = (s.current .empty).revision := by
  cases hs : s.draft with
  | some d =>
      obtain ⟨id, row, hone, hfound, hrow, hrevision, hload⟩ := h.getDraft_some hs
      have hsame : s.getDraft .empty = s := by
        obtain ⟨draft, active⟩ := s
        obtain rfl : draft = some d := hs
        rfl
      refine ⟨⟨id, row.revision, [], ids⟩, t, ?_, rfl, hsame ▸ h, hone, ?_⟩
      · simp [Orqent.ensureDraft, hfound]
      · simpa [Drafts.current, hs] using hrevision
  | none =>
      have hundrafted := h.undrafted hs
      have hnone : t.getDraft = none := t.getDraft_none_iff_isDraft.mpr hundrafted
      have hid := h.not_active (Or.inr hfresh)
      have hinsert : (versionStore registry).perform [.insertVersion ids.version] t =
          some (t.putVersion ids.version { status := .draft }) :=
        perform_insertVersion.mpr ⟨⟨hnone, hfresh⟩, rfl⟩
      have hdraft : ∀ v, (t.putVersion ids.version { status := .draft }).IsDraft v ↔
          v = ids.version := by
        intro v
        rw [t.isDraft_putVersion]
        by_cases hv : ids.version = v
        · simp [hv]
        · simp [hv, hundrafted v, Ne.symm hv]
      cases hsource : t.activeVersionId with
      | none =>
          have hactive : s.active = none := by
            have := h.active
            rw [hsource] at this
            simpa using this.symm
          refine ⟨⟨ids.version, 1, [.insertVersion ids.version], ids⟩, _, ?_, hinsert, ?_, hdraft,
            ?_⟩
          · simp [Orqent.ensureDraft, hnone, hsource]
          · have hshown := h.written (t.putVersion ids.version { status := .draft }) ids.version
              { status := .draft } .empty
              (fun v hv => absurd hv (hundrafted v)) rfl
              (fun v hv => by simp [Ne.symm hv]) (by simp)
              (by rw [t.graphs_putVersion, h.unwritten _ hfresh, loadGraph_blank]) rfl hid
            simpa [Drafts.getDraft, Drafts.current, hs, hactive] using hshown
          · simp [Drafts.current, hs]
      | some source =>
          obtain ⟨g, hg, hactive⟩ : ∃ g, loadGraph (t.graphs source) = some g ∧
              s.active = some g := by
            have := h.active
            rw [hsource, Option.map_some] at this
            obtain ⟨g, hg, hsame⟩ := Option.map_eq_some_iff.mp this.symm
            exact ⟨g, hsame.symm, hg⟩
          refine ⟨⟨ids.version, 1, .insertVersion ids.version :: replaceGraph ids.version ids g,
            ids.after g⟩, (t.putVersion ids.version { status := .draft }).onGraph ids.version
              fun _ => graphRows ids.node ids.edge g, ?_, ?_, ?_, fun v => hdraft v, ?_⟩
          · simp [Orqent.ensureDraft, hnone, hsource, hg]
          · show (versionStore registry).perform ([Statement.insertVersion ids.version] ++
              replaceGraph ids.version ids g) t = _
            exact perform_append.mpr ⟨_, hinsert, perform_replaceGraph⟩
          · have hshown := h.written ((t.putVersion ids.version { status := .draft }).onGraph
              ids.version fun _ => graphRows ids.node ids.edge g) ids.version { status := .draft } g
              (fun v hv => absurd hv (hundrafted v)) rfl
              (fun v hv => by simp [Ne.symm hv, Function.update_of_ne hv]) (by simp)
              (by simp [loadGraph_graphRows]) rfl hid
            simpa [Drafts.getDraft, Drafts.current, hs, hactive] using hshown
          · simp [Drafts.current, hs]

/-- The service refuses the call where `after` is `none`, and else leaves rows that show it. -/
def Serves (registry : NodeRegistry Value) (t : Tables Value) (call : Call Value)
    (after : Option (Drafts (WorkflowGraph Value))) : Prop :=
  (after = none → call.body registry t = none) ∧
    ∀ s', after = some s' → ∃ ws t', call.body registry t = some ws ∧
      (versionStore registry).perform ws t = some t' ∧ Shows t' s'

theorem Shows.serves_getDraft (h : Shows t s) (hfresh : t.version ids.version = none) :
    Serves registry t (.getDraft ids) (some (s.getDraft .empty)) := by
  obtain ⟨draft, t', hdraft, hperform, hshows, -, -⟩ := h.ensureDraft registry hfresh
  refine ⟨fun hnone => (by cases hnone), fun s' hs' => ?_⟩
  obtain rfl := Option.some.inj hs'
  exact ⟨draft.statements, t', by simp [Call.body, hdraft], hperform, hshows⟩

theorem Shows.serves_replaceDraft (h : Shows t s) (hfresh : t.version ids.version = none)
    (revision : Nat) (graph : WorkflowGraph Value) :
    Serves registry t (.replaceDraft ids revision graph)
      (s.replaceDraft .empty revision graph) := by
  obtain ⟨draft, t', hdraft, hperform, hshows, hone, hrevision⟩ :=
    h.ensureDraft registry hfresh
  refine ⟨fun hnone => ?_, fun s' hs' => ?_⟩
  · have hne : (s.current .empty).revision ≠ revision := by
      intro hc
      simp [Drafts.replaceDraft, hc] at hnone
    simp [Call.body, hdraft, hrevision, hne]
  have hcurrent : (s.current .empty).revision = revision := (Drafts.current_replaceDraft hs').1
  obtain ⟨row, hrow, hstatus⟩ := (hone draft.id).mpr rfl
  have hrowRevision : row.revision = revision := by
    obtain ⟨i, r, hone', hr, hrev, -⟩ := hshows.drafted _ rfl
    obtain rfl := (hone' draft.id).mp ⟨row, hrow, hstatus⟩
    obtain rfl := Option.some.inj (hr.symm.trans hrow)
    exact hrev.trans hcurrent
  have hreplace : (versionStore registry).perform (replaceGraph draft.id draft.ids graph) t' =
      some (t'.onGraph draft.id fun _ => graphRows draft.ids.node draft.ids.edge graph) :=
    perform_replaceGraph
  have hsave := perform_append.mpr ⟨_, hreplace, perform_bumpRevision.mpr ⟨row, hrow, rfl⟩⟩
  refine ⟨draft.statements ++
    (replaceGraph draft.id draft.ids graph ++ [.bumpRevision draft.id]), _, ?_,
    perform_append.mpr ⟨t', hperform, hsave⟩, ?_⟩
  · simp [Call.body, hdraft, hrevision, hcurrent]
  · have hshown := hshows.written
      ((t'.onGraph draft.id fun _ =>
        graphRows draft.ids.node draft.ids.edge graph).putVersion draft.id
          { row with revision := row.revision + 1 })
      draft.id { row with revision := row.revision + 1 } graph
      (fun v => (hone v).mp) hstatus
      (fun v hv => by simp [Ne.symm hv, Function.update_of_ne hv]) (by simp)
      (by simp [loadGraph_graphRows]) rfl (hshows.not_active (Or.inl ⟨row, hrow, hstatus⟩))
    have hafter : s' = { s with draft := some ⟨revision + 1, graph⟩ } := by
      simpa [Drafts.replaceDraft, hcurrent] using hs'.symm
    rw [hafter]
    simpa [hrowRevision, Drafts.getDraft] using hshown

omit [DecidableEq Value] in
/-- The draft is published: it is no draft any more, and there is no other. -/
theorem not_draft_of_published (hone : ∀ v, t.IsDraft v ↔ v = id) {versionNo : Nat} (v : Nat) :
    ¬ ((t.putVersion id { row with
      status := .published, versionNo := some versionNo }).putActive id).IsDraft v := by
  rintro ⟨r, hr, hstatus⟩
  rw [Tables.version_putActive, Tables.version_putVersion] at hr
  split at hr
  · obtain rfl := Option.some.inj hr
    cases hstatus
  · rename_i hne
    exact hne ((hone v).mp ⟨r, hr, hstatus⟩).symm

theorem Shows.serves_publish (h : Shows t s) :
    Serves registry t .publish (s.publish fun graph => (validateGraph graph registry).isValid) := by
  cases hs : s.draft with
  | none =>
      have hnone : t.getDraft = none := t.getDraft_none_iff_isDraft.mpr (h.undrafted hs)
      refine ⟨fun _ => by simp [Call.body, hnone], fun s' hs' => ?_⟩
      simp [Drafts.publish, hs] at hs'
  | some d =>
      obtain ⟨id, row, hone, hfound, hrow, -, hload⟩ := h.getDraft_some hs
      refine ⟨fun hnone => ?_, fun s' hs' => ?_⟩
      · have hinvalid : (validateGraph d.graph registry).isValid = false := by
          simpa [Drafts.publish, hs] using hnone
        simp [Call.body, hfound, hload, hinvalid]
      have hvalid : (validateGraph d.graph registry).isValid = true := by
        by_contra hc
        simp [Drafts.publish, hs, hc] at hs'
      obtain rfl : s' = ⟨none, some d.graph⟩ := by
        simpa [Drafts.publish, hs, hvalid] using hs'.symm
      refine ⟨[.publishVersion id (nextVersionNo t), .activate id], _,
        by simp [Call.body, hfound, hload, hvalid], perform_publish.mpr ⟨row, hrow, rfl⟩, ?_⟩
      refine ⟨fun d hd => (by cases hd), fun _ => not_draft_of_published hone, ?_, ?_, ?_⟩
      · show some (loadGraph (t.graphs id)) = some (some d.graph)
        rw [hload]
      · intro source hsource
        obtain rfl := Option.some.inj hsource
        exact ⟨by simp, not_draft_of_published hone _⟩
      · intro v hv
        rw [Tables.version_putActive, Tables.version_putVersion] at hv
        split at hv
        · cases hv
        · exact h.unwritten v hv

/--
**The service does to its rows what is said here.**  A call that is made on rows which show
this draft is refused where it is refused here; and where it is not, its statements are carried
out, and leave rows that show what is left here.
-/
theorem shows_call (h : Shows t s) (call : Call Value) (hfresh : FreshFor t call) :
    Serves registry t call (s.serve registry call) := by
  cases call with
  | getDraft ids => exact h.serves_getDraft hfresh
  | replaceDraft ids revision graph => exact h.serves_replaceDraft hfresh revision graph
  | publish => exact h.serves_publish

end Rows

end Orqent.Builder
