/-
Opening a draft.

`get_draft`, `validate_draft` and `replace_draft` work on the workflow's draft and make it
if there is none: they look for it in their snapshot, and insert it if it was not there.
The unique `draft_key` lets one insert through.  Another waits for that transaction, and is
refused once it has committed; nothing on the way turns the refusal into an answer or tries
again.

`opensDraft_iff` says when no call is hurt by this: exactly when no call goes to insert a
draft after another one's draft was committed.
-/
import Orqent.Versions.Revisions
import Mathlib.Data.Fintype.Basic

namespace Orqent

open LockStore

variable {Value : Type}

/-! ### The calls -/

/-- The calls that open a draft. -/
inductive DraftCall (Value : Type)
  | getDraft (ids : NewIds)
  | validateDraft (ids : NewIds)
  | replaceDraft (ids : NewIds) (revision : Nat) (graph : WorkflowGraph Value)

/-- The ids the database hands out for it. -/
def DraftCall.ids : DraftCall Value → NewIds
  | .getDraft ids => ids
  | .validateDraft ids => ids
  | .replaceDraft ids _ _ => ids

/-- Whether it asks for nothing but the draft. -/
def DraftCall.reads : DraftCall Value → Bool
  | .replaceDraft _ _ _ => false
  | _ => true

/-- What a call does one after another: statements, and in a `replace_draft` the revision
check failing, which ends it after the draft was made. -/
inductive DraftStep (Value : Type)
  | write (w : Statement Value)
  | conflict

/-- What comes after the draft is there. -/
def DraftCall.rest (draft : EnsuredDraft Value) : DraftCall Value → List (DraftStep Value)
  | .replaceDraft _ revision graph =>
      if draft.revision ≠ revision then [.conflict]
      else (replaceGraph draft.id draft.ids graph ++ [Statement.bumpRevision draft.id]).map .write
  | _ => []

/-- How a call ended. -/
inductive DraftResult
  /-- It worked on this draft. -/
  | draft (id : Nat)
  /-- The workflow was changed by someone else. -/
  | conflict
  /-- The database refused a statement. -/
  | integrityError
  /-- The active version does not load. -/
  | valueError
deriving DecidableEq, Repr

section Pool

variable [DecidableEq Value]

/-- What a call goes through, given the rows it reads. -/
def DraftCall.body (call : DraftCall Value) (t : Tables Value) :
    Option (List (DraftStep Value)) :=
  (ensureDraft call.ids t).map fun draft => draft.statements.map .write ++ call.rest draft

/-- The rows of a workflow, and the calls that open its draft. -/
def draftStore (Value : Type) [DecidableEq Value] : LockStore (Tables Value) (DraftCall Value)
    (DraftStep Value) (Change Value) Lockable (Lockable.Contents Value) where
  body := DraftCall.body
  exec
    | .write w, t => w.exec t
    | .conflict, _ => none
  apply := Change.apply
  locks
    | .write w => w.locks
    | .conflict => []
  part r t := t.part r
  exec_congr := by
    intro w t t' h
    cases w with
    | write w => exact Statement.exec_congr h
    | conflict => rfl
  frame := by
    intro w t d r h hr
    cases w with
    | write w => exact Statement.frame h hr
    | conflict => simp at h
  apply_congr := Change.apply_congr

/-- Any number of calls on one workflow's draft. -/
abbrev Drafting (Value ι : Type) :=
  LockStore.Pool (Tables Value) (DraftCall Value) (DraftStep Value) (Change Value) Lockable ι

/-- What happens to the transactions. -/
abbrev DraftEvent (Value ι : Type) := Event (DraftCall Value) ι

/-- How a call ends in a step, if one does.  Where the caller is gone it has no end. -/
def draftEnds {ι : Type} (p : Drafting Value ι) (e : DraftEvent Value ι) (p' : Drafting Value ι) :
    List (DraftCall Value × DraftResult) :=
  match e with
  | .begin i call =>
      match p.opened i, call.body p.committed with
      | none, none => [(call, .valueError)]
      | _, _ => []
  | .issue i =>
      match p.opened i, p'.opened i with
      | some ⟨call, _, _, _, .conflict :: _⟩, none => [(call, .conflict)]
      | some ⟨call, _, _, _, _⟩, none => [(call, .integrityError)]
      | _, _ => []
  | .commit i =>
      match p.opened i with
      | some t => ((ensureDraft t.call.ids t.snap).map
          fun draft => (t.call, .draft draft.id)).toList
      | none => []
  | .rollback _ => []

variable {ι : Type} [DecidableEq ι]

/-- A pool with the ends of its calls so far. -/
abbrev DraftHistory (Value ι : Type) := Drafting Value ι × List (DraftCall Value × DraftResult)

/-- A step, and how a call ended in it. -/
def draftStep : DraftHistory Value ι → DraftEvent Value ι → Option (DraftHistory Value ι) :=
  Trace.noting (draftStore Value).poolStep draftEnds

/-- A workflow that has no draft; its active version, if it has one, is published and loads. -/
structure Undrafted (Value : Type) [DecidableEq Value] where
  tables : Tables Value
  undrafted : tables.getDraft = none
  active : ∀ source, tables.activeVersionId = some source →
    (tables.version source).isSome = true ∧ (loadGraph (tables.graphs source)).isSome = true

/-- Nothing has happened yet. -/
def Undrafted.start (w : Undrafted Value) (ι : Type) : DraftHistory Value ι :=
  (LockStore.Pool.start w.tables, [])

/-- What opening a draft is for: a call that only reads ends with a draft, all who end with
one end with the one there is, and nothing fails but a save based on another revision. -/
structure OpensDraft (x : DraftHistory Value ι) : Prop where
  opened : ∀ r ∈ x.2, r.1.reads = true → ∃ d, r.2 = .draft d
  same : ∀ r ∈ x.2, ∀ d, r.2 = .draft d → ∀ v, x.1.committed.IsDraft v ↔ v = d
  documented : ∀ r ∈ x.2, (∃ d, r.2 = .draft d) ∨ r.2 = .conflict

/-- The id a call would insert is one no version has and no other call would. -/
def HandedOut (x : DraftHistory Value ι) : DraftEvent Value ι → Prop
  | .begin _ call => x.1.committed.version call.ids.version = none ∧
      ∀ j t, x.1.opened j = some t → t.call.ids.version ≠ call.ids.version
  | _ => True

/-- A call that found no draft goes to insert one only while none is committed. -/
def InsertsFirst (x : DraftHistory Value ι) : DraftEvent Value ι → Prop
  | .issue i => ∀ t, x.1.opened i = some t → t.snap.getDraft = none → t.issued = [] →
      x.1.committed.getDraft = none
  | _ => True

end Pool

/-! ### What a call does to the rows -/

section Perform

variable {t t' mid : Tables Value} {d : Nat}

/-- The rows a call leaves: the workflow's draft is `d`, where it was `d` or there was none,
and nothing else has changed. -/
structure WorkedOn (t : Tables Value) (d : Nat) (t' : Tables Value) : Prop where
  before : ∀ v, t.IsDraft v → v = d
  after : ∀ v, t'.IsDraft v ↔ v = d
  versions : ∀ v, v ≠ d → t'.version v = t.version v
  graphs : ∀ v, v ≠ d → t'.graphs v = t.graphs v
  active : t'.activeVersionId = t.activeVersionId

theorem WorkedOn.refl (h : ∀ v, t.IsDraft v ↔ v = d) : WorkedOn t d t :=
  ⟨fun v => (h v).mp, h, fun _ _ => rfl, fun _ _ => rfl, rfl⟩

theorem WorkedOn.trans (h : WorkedOn t d mid) (h' : WorkedOn mid d t') : WorkedOn t d t' where
  before := h.before
  after := h'.after
  versions := fun v hv => (h'.versions v hv).trans (h.versions v hv)
  graphs := fun v hv => (h'.graphs v hv).trans (h.graphs v hv)
  active := h'.active.trans h.active

theorem WorkedOn.putVersion (h : ∀ v, t.IsDraft v → v = d) {row : WorkflowVersion}
    (hrow : row.status = .draft) : WorkedOn t d (t.putVersion d row) where
  before := h
  after := by
    intro v
    rw [t.isDraft_putVersion]
    by_cases hv : d = v
    · simp [hv, hrow]
    · simp only [hv, if_false]
      exact ⟨h v, fun hc => absurd hc.symm hv⟩
  versions := by
    intro v hv
    rw [t.version_putVersion, if_neg fun hc => hv hc.symm]
  graphs := fun _ _ => rfl
  active := rfl

theorem WorkedOn.onGraph (h : ∀ v, t.IsDraft v ↔ v = d) (f : GraphRows Value → GraphRows Value) :
    WorkedOn t d (t.onGraph d f) where
  before := fun v => (h v).mp
  after := h
  versions := fun _ _ => rfl
  graphs := by
    intro v hv
    rw [t.graphs_onGraph, Function.update_of_ne hv]
  active := rfl

variable [DecidableEq Value] (registry : NodeRegistry Value) {snap : Tables Value} {ids : NewIds}
  {draft : EnsuredDraft Value} {call : DraftCall Value}

/-- Opening the draft is not refused where its snapshot shows the drafts there are. -/
theorem ensureDraft_performs (h : ensureDraft ids snap = some draft)
    (hsees : ∀ v, snap.IsDraft v ↔ t.IsDraft v) (hone : ∀ v u, t.IsDraft v → t.IsDraft u → v = u)
    (hfresh : t.version ids.version = none) :
    (t.IsDraft draft.id ∨ draft.id = ids.version) ∧
      ∃ t', (versionStore registry).perform draft.statements t = some t' ∧
        WorkedOn t draft.id t' := by
  unfold ensureDraft at h
  split at h
  · rename_i id row hdraft
    obtain rfl := Option.some.inj h
    obtain ⟨hrow, hstatus⟩ := snap.getDraft_eq_some hdraft
    have his : t.IsDraft id := (hsees id).mp ⟨row, hrow, hstatus⟩
    refine ⟨Or.inl his, t, rfl, WorkedOn.refl fun v => ?_⟩
    exact ⟨fun hv => hone v id hv his, fun hv => hv ▸ his⟩
  · rename_i hnone
    have hundrafted : ∀ v, ¬ t.IsDraft v := by
      intro v hv
      exact snap.getDraft_none_iff_isDraft.mp hnone v ((hsees v).mpr hv)
    have hinsert : (versionStore registry).perform [.insertVersion ids.version] t =
        some (t.putVersion ids.version { status := .draft }) :=
      perform_insertVersion.mpr ⟨⟨t.getDraft_none_iff_isDraft.mpr hundrafted, hfresh⟩, rfl⟩
    have hmade : WorkedOn t ids.version (t.putVersion ids.version { status := .draft }) :=
      WorkedOn.putVersion (fun v hv => absurd hv (hundrafted v)) rfl
    split at h
    · obtain rfl := Option.some.inj h
      exact ⟨Or.inr rfl, _, hinsert, hmade⟩
    · obtain ⟨copy, -, rfl⟩ := Option.map_eq_some_iff.mp h
      have hcopied := WorkedOn.onGraph hmade.after fun _ => graphRows ids.node ids.edge copy
      refine ⟨Or.inr rfl, _, ?_, hmade.trans hcopied⟩
      show (versionStore registry).perform ([Statement.insertVersion ids.version] ++
        replaceGraph ids.version ids copy) t = _
      exact perform_append.mpr ⟨_, hinsert, perform_replaceGraph⟩

/-- Saving the draft is not refused. -/
theorem save_performs (ids : NewIds) (g : WorkflowGraph Value) (h : ∀ v, t.IsDraft v ↔ v = d) :
    ∃ t', (versionStore registry).perform (replaceGraph d ids g ++ [.bumpRevision d]) t = some t' ∧
      WorkedOn t d t' := by
  obtain ⟨row, hrow, hstatus⟩ := (h d).mpr rfl
  have hreplaced := WorkedOn.onGraph h fun _ => graphRows ids.node ids.edge g
  refine ⟨_, perform_append.mpr ⟨_, perform_replaceGraph,
    perform_bumpRevision.mpr ⟨row, hrow, rfl⟩⟩, ?_⟩
  exact hreplaced.trans (WorkedOn.putVersion (fun v => (hreplaced.after v).mp) hstatus)

theorem perform_write (ws : List (Statement Value)) :
    (draftStore Value).perform (ws.map .write) t = (versionStore registry).perform ws t := by
  induction ws generalizing t with
  | nil => rfl
  | cons w ws ih =>
      simp only [perform, List.map_cons, List.foldlM_cons] at ih ⊢
      show ((w.exec t).map _).bind _ = ((w.exec t).map _).bind _
      cases w.exec t with
      | none => rfl
      | some c => exact ih

theorem body_eq_some_iff {ws : List (DraftStep Value)} :
    call.body snap = some ws ↔
      ∃ draft, ensureDraft call.ids snap = some draft ∧
        ws = draft.statements.map .write ++ call.rest draft := by
  unfold DraftCall.body
  rw [Option.map_eq_some_iff]
  simp only [eq_comm]

/-- A call's body is what it writes on its draft, and the conflict of a save after it. -/
theorem body_performs {ws : List (DraftStep Value)} (h : call.body snap = some ws)
    (hsees : ∀ v, snap.IsDraft v ↔ t.IsDraft v) (hone : ∀ v u, t.IsDraft v → t.IsDraft u → v = u)
    (hfresh : t.version call.ids.version = none) :
    ∃ draft, ensureDraft call.ids snap = some draft ∧
      (t.IsDraft draft.id ∨ draft.id = call.ids.version) ∧
      ∃ writes tail, ws = writes ++ tail ∧ (tail = [] ∨ tail = [.conflict] ∧ call.reads = false) ∧
        ∃ t', (draftStore Value).perform writes t = some t' ∧ WorkedOn t draft.id t' := by
  obtain ⟨draft, hdraft, rfl⟩ := body_eq_some_iff.mp h
  let registry : NodeRegistry Value := ⟨fun _ _ => none⟩
  obtain ⟨hid, mid, hensured, hmid⟩ :=
    ensureDraft_performs registry hdraft hsees hone hfresh
  rw [← perform_write registry] at hensured
  refine ⟨draft, hdraft, hid, ?_⟩
  have hreads : call.rest draft = [] → ∃ writes tail,
      draft.statements.map .write ++ call.rest draft = writes ++ tail ∧
        (tail = [] ∨ tail = [.conflict] ∧ call.reads = false) ∧
        ∃ t', (draftStore Value).perform writes t = some t' ∧ WorkedOn t draft.id t' := by
    intro hrest
    exact ⟨_, [], by rw [hrest], Or.inl rfl, mid, hensured, hmid⟩
  cases call with
  | getDraft ids => exact hreads rfl
  | validateDraft ids => exact hreads rfl
  | replaceDraft ids revision graph =>
      by_cases hrevision : draft.revision = revision
      · obtain ⟨t', hsaved, ht'⟩ :=
          save_performs registry draft.ids graph hmid.after
        rw [← perform_write registry] at hsaved
        refine ⟨_, [], ?_, Or.inl rfl, t', perform_append.mpr ⟨mid, hensured, hsaved⟩,
          hmid.trans ht'⟩
        simp [DraftCall.rest, hrevision]
      · refine ⟨_, [.conflict], ?_, Or.inr ⟨rfl, rfl⟩, mid, hensured, hmid⟩
        simp [DraftCall.rest, hrevision]

/-- A call that has found no draft inserts one first. -/
theorem body_inserts {ws : List (DraftStep Value)} (h : call.body snap = some ws)
    (hnone : snap.getDraft = none) :
    ∃ rest, ws = .write (.insertVersion call.ids.version) :: rest := by
  obtain ⟨draft, hdraft, rfl⟩ := body_eq_some_iff.mp h
  unfold ensureDraft at hdraft
  rw [hnone] at hdraft
  dsimp only at hdraft
  split at hdraft
  · obtain rfl := Option.some.inj hdraft
    exact ⟨_, rfl⟩
  · obtain ⟨copy, -, rfl⟩ := Option.map_eq_some_iff.mp hdraft
    exact ⟨_, rfl⟩

end Perform

/-! ### What holds while no insert is late -/

section Runs

/-- A call has ended with the workflow's one draft, or was a save in conflict. -/
def Answer (t : Tables Value) (r : DraftCall Value × DraftResult) : Prop :=
  (∃ d, r.2 = .draft d ∧ ∀ v, t.IsDraft v ↔ v = d) ∨ (r.2 = .conflict ∧ r.1.reads = false)

theorem Answer.mono {t t' : Tables Value} {r : DraftCall Value × DraftResult} (h : Answer t r)
    (hkeeps : ∀ d, (∀ v, t.IsDraft v ↔ v = d) → ∀ v, t'.IsDraft v ↔ v = d) : Answer t' r := by
  rcases h with ⟨d, hd, honly⟩ | hconflict
  · exact Or.inl ⟨d, hd, hkeeps d honly⟩
  · exact Or.inr hconflict

variable [DecidableEq Value] {ι : Type} {p p' : Drafting Value ι} {i : ι}

/-- The pool between two steps of a run in which no insert was late.  A call reads the drafts
there are, unless one was made since and it has not come to its insert. -/
structure Opening (p : Drafting Value ι) : Prop where
  ok : PoolOk (draftStore Value) p
  active : ∀ source, p.committed.activeVersionId = some source →
    (p.committed.version source).isSome = true ∧ ¬ p.committed.IsDraft source ∧
      (loadGraph (p.committed.graphs source)).isSome = true
  one : ∀ v u, p.committed.IsDraft v → p.committed.IsDraft u → v = u
  sees : ∀ i t, p.opened i = some t → (∀ v, t.snap.IsDraft v ↔ p.committed.IsDraft v) ∨
    (t.snap.getDraft = none ∧ t.issued = [])
  fresh : ∀ i t, p.opened i = some t → p.committed.version t.call.ids.version = none
  apart : ∀ i j t u, p.opened i = some t → p.opened j = some u → i ≠ j →
    t.call.ids.version ≠ u.call.ids.version

theorem Opening.start (w : Undrafted Value) : Opening (w.start ι).1 where
  ok := PoolOk.start w.tables
  active := by
    intro source hsource
    obtain ⟨hversion, hload⟩ := w.active source hsource
    exact ⟨hversion, w.tables.getDraft_none_iff_isDraft.mp w.undrafted source, hload⟩
  one := fun v _ hv => absurd hv (w.tables.getDraft_none_iff_isDraft.mp w.undrafted v)
  sees := fun _ _ hj => nomatch hj
  fresh := fun _ _ hj => nomatch hj
  apart := fun _ _ _ _ hj => nomatch hj

/-- A statement that is refused is the conflict at the end of a save. -/
theorem Opening.refused (h : Opening p) {t : Txn (Tables Value) (DraftCall Value)
      (DraftStep Value) (Change Value)} (hopen : p.opened i = some t) {w : DraftStep Value}
    {rest : List (DraftStep Value)} (htodo : t.todo = w :: rest)
    (hsees : ∀ v, t.snap.IsDraft v ↔ p.committed.IsDraft v)
    (hrefused : (draftStore Value).exec w ((draftStore Value).view t.changes p.committed) = none) :
    w = .conflict ∧ t.call.reads = false := by
  obtain ⟨draft, -, -, writes, tail, hws, htail, t', hperform, -⟩ :=
    body_performs (h.ok.decided i t hopen) hsees h.one (h.fresh i t hopen)
  have hmem : w ∈ tail := by
    rw [htodo, List.append_eq_append_iff] at hws
    rcases hws with ⟨as, hwrites, has⟩ | ⟨bs, -, hbs⟩
    · cases as with
      | nil =>
          rw [List.nil_append] at has
          exact has ▸ List.mem_cons_self
      | cons a as =>
          obtain ⟨rfl, -⟩ := List.cons.inj has
          rw [hwrites] at hperform
          obtain ⟨d, hd⟩ := exec_of_perform (h.ok.replays i t hopen) hperform
          rw [hd] at hrefused
          exact nomatch hrefused
    · simp [hbs]
  rcases htail with rfl | ⟨rfl, hreads⟩
  · exact nomatch hmem
  · exact ⟨List.mem_singleton.mp hmem, hreads⟩

/-- Where none was there when it began, a call that has issued a statement holds the key. -/
theorem Opening.holds (h : Opening p) {t : Txn (Tables Value) (DraftCall Value) (DraftStep Value)
      (Change Value)} (hopen : p.opened i = some t) (hnone : t.snap.getDraft = none)
    (hissued : t.issued ≠ []) : p.owner .draftKey = some i := by
  obtain ⟨rest, hbody⟩ := body_inserts (h.ok.decided i t hopen) hnone
  obtain ⟨w, ws, hws⟩ := List.exists_cons_of_ne_nil hissued
  rw [hws, List.cons_append] at hbody
  obtain ⟨rfl, -⟩ := List.cons.inj hbody
  refine h.ok.held i t hopen (.write (.insertVersion t.call.ids.version)) ?_ .draftKey ?_
  · rw [hws]
    exact List.mem_cons_self
  · simp [draftStore, Statement.locks]

variable [DecidableEq ι]

theorem Opening.ended (h : Opening p) (i : ι) : Opening (p.ended i) where
  ok := h.ok.ended i
  active := h.active
  one := h.one
  sees := fun j t hj => h.sees j t (Pool.opened_ended hj).2
  fresh := fun j t hj => h.fresh j t (Pool.opened_ended hj).2
  apart := fun j k t u hj hk => h.apart j k t u (Pool.opened_ended hj).2 (Pool.opened_ended hk).2

/-- A call of its own begins, and is not refused. -/
theorem Opening.begin (h : Opening p) {call : DraftCall Value}
    (hfresh : p.committed.version call.ids.version = none)
    (hapart : ∀ j t, p.opened j = some t → t.call.ids.version ≠ call.ids.version)
    (hstep : (draftStore Value).poolStep p (.begin i call) = some p') :
    Opening p' ∧ draftEnds p (.begin i call) p' = [] := by
  have hok := h.ok.step hstep
  obtain ⟨hclosed, ⟨hrefused, -⟩ | ⟨ws, hbody, rfl⟩⟩ := poolStep_begin hstep
  · exfalso
    have hensure : ensureDraft call.ids p.committed = none := Option.map_eq_none_iff.mp hrefused
    unfold ensureDraft at hensure
    split at hensure
    · exact nomatch hensure
    · split at hensure
      · exact nomatch hensure
      · rename_i source hsource
        obtain ⟨-, -, hload⟩ := h.active source hsource
        rw [Option.map_eq_none_iff.mp hensure] at hload
        exact nomatch hload
  refine ⟨⟨hok, h.active, h.one, ?_, ?_, ?_⟩, ?_⟩
  · intro j t hj
    rcases opened_update hj with ⟨-, rfl⟩ | ⟨-, hold⟩
    · exact Or.inl fun v => Iff.rfl
    · exact h.sees j t hold
  · intro j t hj
    rcases opened_update hj with ⟨-, rfl⟩ | ⟨-, hold⟩
    · exact hfresh
    · exact h.fresh j t hold
  · intro j k t u hj hk hne
    rcases opened_update hj with ⟨rfl, rfl⟩ | ⟨-, hold⟩ <;>
      rcases opened_update hk with ⟨rfl, rfl⟩ | ⟨-, hold'⟩
    · exact absurd rfl hne
    · exact (hapart k u hold').symm
    · exact hapart j t hold
    · exact h.apart j k t u hold hold' hne
  · simp only [draftEnds, hclosed]
    rw [show call.body p.committed = some ws from hbody]

/-- A statement is issued; if it is the conflict of a save, this ends. -/
theorem Opening.issue (h : Opening p)
    (hfirst : ∀ t, p.opened i = some t → t.snap.getDraft = none → t.issued = [] →
      p.committed.getDraft = none)
    (hstep : (draftStore Value).poolStep p (.issue i) = some p') :
    Opening p' ∧ ∀ r ∈ draftEnds p (.issue i) p', r.2 = .conflict ∧ r.1.reads = false := by
  have hok := h.ok.step hstep
  obtain ⟨t, w, rest, hopen, htodo, -, hcase⟩ := poolStep_issue hstep
  have hsees : ∀ v, t.snap.IsDraft v ↔ p.committed.IsDraft v := by
    rcases h.sees i t hopen with hsees | ⟨hnone, hissued⟩
    · exact hsees
    · intro v
      have hundrafted := hfirst t hopen hnone hissued
      exact iff_of_false (t.snap.getDraft_none_iff_isDraft.mp hnone v)
        (p.committed.getDraft_none_iff_isDraft.mp hundrafted v)
  rcases hcase with ⟨hrefused, rfl⟩ | ⟨d, -, rfl⟩
  · obtain ⟨rfl, hreads⟩ := h.refused hopen htodo hsees hrefused
    refine ⟨h.ended i, ?_⟩
    obtain ⟨call, snap, issued, changes, todo⟩ := t
    obtain rfl : todo = _ := htodo
    simpa [draftEnds, hopen, Pool.ended] using hreads
  have hopened : ∀ j u, Function.update p.opened i
      (some ⟨t.call, t.snap, t.issued ++ [w], t.changes ++ [d], rest⟩) j = some u →
        (j = i ∧ u.snap = t.snap ∨ p.opened j = some u) ∧
          ∃ old, p.opened j = some old ∧ old.call = u.call := by
    intro j u hj
    rcases opened_update hj with ⟨rfl, rfl⟩ | ⟨-, hold⟩
    · exact ⟨Or.inl ⟨rfl, rfl⟩, t, hopen, rfl⟩
    · exact ⟨Or.inr hold, u, hold, rfl⟩
  refine ⟨⟨hok, h.active, h.one, ?_, ?_, ?_⟩, ?_⟩
  · intro j u hj
    rcases (hopened j u hj).1 with ⟨-, hsnap⟩ | hold
    · exact Or.inl (hsnap ▸ hsees)
    · exact h.sees j u hold
  · intro j u hj
    obtain ⟨-, old, hold, hcall⟩ := hopened j u hj
    exact hcall ▸ h.fresh j old hold
  · intro j k u v hj hk hne
    obtain ⟨-, oldj, holdj, hcallj⟩ := hopened j u hj
    obtain ⟨-, oldk, holdk, hcallk⟩ := hopened k v hk
    exact hcallj ▸ hcallk ▸ h.apart j k oldj oldk holdj holdk hne
  · simp [draftEnds, hopen]

/-- What a call that commits leaves is the draft it has worked on, as it found it. -/
theorem Opening.worksOn (h : Opening p)
    (hstep : (draftStore Value).poolStep p (.commit i) = some p') :
    ∃ t draft, p.opened i = some t ∧ (t.snap.getDraft = none → t.issued ≠ []) ∧
      (∀ v, t.snap.IsDraft v ↔ p.committed.IsDraft v) ∧
      ensureDraft t.call.ids t.snap = some draft ∧
      (p.committed.IsDraft draft.id ∨ draft.id = t.call.ids.version) ∧
      WorkedOn p.committed draft.id p'.committed := by
  obtain ⟨t, hopen, htodo, rfl⟩ := poolStep_commit hstep
  have hbody := h.ok.decided i t hopen
  rw [htodo, List.append_nil] at hbody
  have hissued : t.snap.getDraft = none → t.issued ≠ [] := by
    intro hnone hc
    obtain ⟨rest, hws⟩ := body_inserts hbody hnone
    rw [hc] at hws
    exact nomatch hws
  have hsees : ∀ v, t.snap.IsDraft v ↔ p.committed.IsDraft v := by
    rcases h.sees i t hopen with hsees | ⟨hnone, hc⟩
    · exact hsees
    · exact absurd hc (hissued hnone)
  obtain ⟨draft, hdraft, hid, writes, tail, hws, htail, t', hperform, hworked⟩ :=
    body_performs hbody hsees h.one (h.fresh i t hopen)
  refine ⟨t, draft, hopen, hissued, hsees, hdraft, hid, ?_⟩
  have hperformed := perform_of_changesOf (h.ok.replays i t hopen)
  rw [hws] at hperformed
  rcases htail with rfl | ⟨rfl, -⟩
  · rw [List.append_nil, hperform] at hperformed
    exact Option.some.inj hperformed ▸ hworked
  · -- A save that is in conflict does not come to its commit.
    obtain ⟨mid, -, hconflict⟩ := perform_append.mp hperformed
    obtain ⟨d, hd, -⟩ := perform_cons.mp hconflict
    exact nomatch hd

/-- A call that commits ends with the workflow's draft. -/
theorem Opening.commit (h : Opening p)
    (hstep : (draftStore Value).poolStep p (.commit i) = some p') :
    Opening p' ∧ ∃ call d, draftEnds p (.commit i) p' = [(call, .draft d)] ∧
      WorkedOn p.committed d p'.committed := by
  obtain ⟨t, draft, hopen, hissued, hsees, hdraft, hid, hworked⟩ := h.worksOn hstep
  have hothers : ∀ j u, p'.opened j = some u → j ≠ i ∧ p.opened j = some u := by
    obtain ⟨-, -, -, rfl⟩ := poolStep_commit hstep
    exact fun j u hj => Pool.opened_ended (p := p) (i := i) hj
  refine ⟨⟨h.ok.step hstep, ?_, ?_, ?_, ?_, ?_⟩, t.call, draft.id, ?_, hworked⟩
  · intro source hsource
    rw [hworked.active] at hsource
    obtain ⟨hversion, hpublished, hload⟩ := h.active source hsource
    have hne : source ≠ draft.id := by
      intro hc
      rcases hid with hdrafted | hnew
      · exact hpublished (hc ▸ hdrafted)
      · rw [hc, hnew, h.fresh i t hopen] at hversion
        exact nomatch hversion
    rw [hworked.versions source hne, hworked.graphs source hne]
    exact ⟨hversion, fun hc => hne ((hworked.after source).mp hc), hload⟩
  · intro v u hv hu
    exact ((hworked.after v).mp hv).trans ((hworked.after u).mp hu).symm
  · intro j u hj
    obtain ⟨hji, hu⟩ := hothers j u hj
    rcases h.sees j u hu with hsame | hwaiting
    swap
    · exact Or.inr hwaiting
    by_cases hdrafted : p.committed.IsDraft draft.id
    · refine Or.inl fun v => (hsame v).trans ⟨fun hv => ?_, fun hv => ?_⟩
      · exact (hworked.after v).mpr (hworked.before v hv)
      · exact (hworked.after v).mp hv ▸ hdrafted
    · -- The draft was made just now; whoever saw none waits for its key.
      have hundrafted : ∀ v, ¬ p.committed.IsDraft v := by
        intro v hv
        exact hdrafted (hworked.before v hv ▸ hv)
      have hnone : ∀ {s : Tables Value}, (∀ v, s.IsDraft v ↔ p.committed.IsDraft v) →
          s.getDraft = none := by
        intro s hs
        exact s.getDraft_none_iff_isDraft.mpr fun v hv => hundrafted v ((hs v).mp hv)
      refine Or.inr ⟨hnone hsame, ?_⟩
      by_contra hstarted
      have howner := h.holds hopen (hnone hsees) (hissued (hnone hsees))
      rw [h.holds hu (hnone hsame) hstarted] at howner
      exact hji (Option.some.inj howner)
  · intro j u hj
    obtain ⟨hji, hu⟩ := hothers j u hj
    have hne : u.call.ids.version ≠ draft.id := by
      intro hc
      rcases hid with ⟨row, hrow, -⟩ | hnew
      · exact nomatch (hc ▸ h.fresh j u hu).symm.trans hrow
      · exact h.apart j i u t hu hopen hji (hc.trans hnew)
    rw [hworked.versions _ hne]
    exact h.fresh j u hu
  · intro j k u v hj hk hne
    exact h.apart j k u v (hothers j u hj).2 (hothers k v hk).2 hne
  · simp [draftEnds, hopen, hdraft]

/-- A step keeps the draft there is, and who ends in it has it or is in conflict. -/
theorem Opening.step {notes : List (DraftCall Value × DraftResult)} {e : DraftEvent Value ι}
    (h : Opening p) (hids : HandedOut (p, notes) e) (hfirst : InsertsFirst (p, notes) e)
    (hstep : (draftStore Value).poolStep p e = some p') :
    Opening p' ∧ (∀ r ∈ draftEnds p e p', Answer p'.committed r) ∧
      ∀ d, (∀ v, p.committed.IsDraft v ↔ v = d) → ∀ v, p'.committed.IsDraft v ↔ v = d := by
  have hquiet : (∀ i, e ≠ .commit i) →
      ∀ d, (∀ v, p.committed.IsDraft v ↔ v = d) → ∀ v, p'.committed.IsDraft v ↔ v = d := by
    intro hne d honly
    rw [poolStep_committed hstep hne]
    exact honly
  cases e with
  | begin i call =>
      obtain ⟨hopening, hends⟩ := h.begin hids.1 hids.2 hstep
      refine ⟨hopening, ?_, hquiet fun _ hc => nomatch hc⟩
      rw [hends]
      exact fun r hr => nomatch hr
  | issue i =>
      obtain ⟨hopening, hends⟩ := h.issue hfirst hstep
      exact ⟨hopening, fun r hr => Or.inr (hends r hr), hquiet fun _ hc => nomatch hc⟩
  | commit i =>
      obtain ⟨hopening, call, d, hends, hworked⟩ := h.commit hstep
      refine ⟨hopening, ?_, ?_⟩
      · rw [hends]
        intro r hr
        obtain rfl := List.mem_singleton.mp hr
        exact Or.inl ⟨d, rfl, hworked.after⟩
      · intro d' honly
        obtain rfl : d' = d := hworked.before d' ((honly d').mpr rfl)
        exact hworked.after
  | rollback i =>
      obtain rfl := poolStep_rollback hstep
      exact ⟨h.ended i, fun r hr => (nomatch hr), hquiet fun _ hc => nomatch hc⟩

/-- A call that found no draft and comes to its insert after one was committed is refused. -/
theorem late_insert (hok : PoolOk (draftStore Value) p)
    {t : Txn (Tables Value) (DraftCall Value) (DraftStep Value) (Change Value)}
    (hopen : p.opened i = some t) (hnone : t.snap.getDraft = none) (hissued : t.issued = [])
    (hlate : p.committed.getDraft ≠ none)
    (hstep : (draftStore Value).poolStep p (.issue i) = some p') :
    draftEnds p (.issue i) p' = [(t.call, .integrityError)] := by
  obtain ⟨rest, hbody⟩ := body_inserts (hok.decided i t hopen) hnone
  have hchanges := hok.replays i t hopen
  obtain ⟨call, snap, issued, changes, todo⟩ := t
  obtain rfl : issued = [] := hissued
  obtain rfl : todo = .write (.insertVersion call.ids.version) :: rest := hbody
  obtain rfl : [] = changes := Option.some.inj hchanges
  obtain ⟨u, w, ws, hopen', htodo, -, ⟨-, rfl⟩ | ⟨d, hd, -⟩⟩ := poolStep_issue hstep
  · simp [draftEnds, hopen, Pool.ended]
  · obtain rfl := Option.some.inj (hopen.symm.trans hopen')
    obtain ⟨rfl, -⟩ := List.cons.inj htodo
    have hexec : Statement.exec (.insertVersion call.ids.version) p.committed = some d := hd
    simp [Statement.exec, hlate] at hexec

variable {events : List (DraftEvent Value ι)} {x : DraftHistory Value ι}

/--
**Opening a draft never fails, as long as no insert is late.**  In every run of any number
of calls on a workflow that has no draft, in any order of their steps: every call that only
reads ends with the draft, all end with the same one, and nothing fails but a save in
conflict; if and only if no call that found no draft goes to insert one once another call's
draft is committed.
-/
theorem opensDraft_iff (w : Undrafted Value)
    (h : Trace.run draftStep (w.start ι) events = some x)
    (hids : Trace.Along draftStep HandedOut (w.start ι) events) :
    Trace.Visits draftStep OpensDraft (w.start ι) events ↔
      Trace.Along draftStep InsertsFirst (w.start ι) events := by
  refine Trace.visits_iff_along
    (I := fun x => Opening x.1 ∧ ∀ r ∈ x.2, Answer x.1.committed r)
    ⟨Opening.start w, fun r hr => absurd hr List.not_mem_nil⟩ ?_ ?_ ?_ h hids
  · intro y hy
    obtain ⟨-, hanswers⟩ := hy
    refine ⟨fun r hr hreads => ?_, fun r hr d hd => ?_, fun r hr => ?_⟩
    · rcases hanswers r hr with ⟨d, hd, -⟩ | ⟨-, hsave⟩
      · exact ⟨d, hd⟩
      · exact nomatch hreads.symm.trans hsave
    · rcases hanswers r hr with ⟨d', hd', honly⟩ | ⟨hconflict, -⟩
      · obtain rfl := DraftResult.draft.inj (hd'.symm.trans hd)
        exact honly
      · exact nomatch hd.symm.trans hconflict
    · rcases hanswers r hr with ⟨d, hd, -⟩ | ⟨hconflict, -⟩
      · exact Or.inl ⟨d, hd⟩
      · exact Or.inr hconflict
  · intro tr y e y' _ hy hdomain hfirst hstep
    obtain ⟨p, notes⟩ := y
    obtain ⟨hopening, hanswers⟩ := hy
    obtain ⟨p', hp', rfl⟩ := Option.map_eq_some_iff.mp hstep
    obtain ⟨hopening', hends, hkeeps⟩ := hopening.step hdomain hfirst hp'
    refine ⟨hopening', fun r hr => ?_⟩
    rcases List.mem_append.mp hr with hold | hnew
    · exact (hanswers r hold).mono hkeeps
    · exact hends r hnew
  · intro tr y e y' _ hy _ hstep hopens
    obtain ⟨p, notes⟩ := y
    obtain ⟨p', hp', rfl⟩ := Option.map_eq_some_iff.mp hstep
    cases e with
    | issue i =>
        intro t hopen hnone hissued
        by_contra hlate
        have hends := late_insert hy.1.ok hopen hnone hissued hlate hp'
        have hfailed := hopens.documented (t.call, .integrityError) (by simp [hends])
        simp at hfailed
    | begin i call => trivial
    | commit i => trivial
    | rollback i => trivial

/-! ### Two readers at once -/

instance [Fintype ι] (x : DraftHistory Value ι) (e : DraftEvent Value ι) :
    Decidable (HandedOut x e) :=
  match e with
  | .begin _ call => inferInstanceAs (Decidable (x.1.committed.version call.ids.version = none ∧
      ∀ j, ∀ t ∈ x.1.opened j, t.call.ids.version ≠ call.ids.version))
  | .issue _ => isTrue trivial
  | .commit _ => isTrue trivial
  | .rollback _ => isTrue trivial

instance (x : DraftHistory Value ι) (e : DraftEvent Value ι) : Decidable (InsertsFirst x e) :=
  match e with
  | .begin _ _ => isTrue trivial
  | .issue i => inferInstanceAs (Decidable (∀ t ∈ x.1.opened i, t.snap.getDraft = none →
      t.issued = [] → x.1.committed.getDraft = none))
  | .commit _ => isTrue trivial
  | .rollback _ => isTrue trivial

end Runs

/-- A workflow just created. -/
def Undrafted.created (Value : Type) [DecidableEq Value] : Undrafted Value where
  tables := {}
  undrafted := rfl
  active := fun source h => absurd h.symm (Option.some_ne_none source)

/-- Two calls that open the draft have both found none, and the first one has inserted it. -/
def twoReaders : List (DraftEvent Unit (Fin 2)) :=
  [.begin 0 (.getDraft ⟨1, 1, 1⟩), .begin 1 (.validateDraft ⟨2, 1, 1⟩), .issue 0]

/-- The first one is rolled back: the second one makes the draft, and the next call finds it. -/
theorem rolledBack_opens :
    Trace.Visits draftStep OpensDraft ((Undrafted.created Unit).start (Fin 2))
      (twoReaders ++ [.rollback 0, .issue 1, .commit 1, .begin 0 (.getDraft ⟨3, 1, 1⟩),
        .commit 0]) := by
  have heval : (Trace.run draftStep ((Undrafted.created Unit).start (Fin 2))
      (twoReaders ++ [.rollback 0, .issue 1, .commit 1, .begin 0 (.getDraft ⟨3, 1, 1⟩),
        .commit 0])).isSome = true := by
    decide +kernel
  obtain ⟨x, hrun⟩ := Option.isSome_iff_exists.mp heval
  exact (opensDraft_iff _ hrun (by decide +kernel)).mpr (by decide +kernel)

/-- The first one commits: the second one's insert is refused, and its call fails. -/
theorem twoReaders_refused :
    ∃ x, Trace.run draftStep ((Undrafted.created Unit).start (Fin 2))
        (twoReaders ++ [.commit 0, .issue 1]) = some x ∧
      Trace.Along draftStep HandedOut ((Undrafted.created Unit).start (Fin 2))
        (twoReaders ++ [.commit 0, .issue 1]) ∧
      x.2.map Prod.snd = [.draft 1, .integrityError] ∧
      ¬ Trace.Visits draftStep OpensDraft ((Undrafted.created Unit).start (Fin 2))
        (twoReaders ++ [.commit 0, .issue 1]) := by
  have heval : (Trace.run draftStep ((Undrafted.created Unit).start (Fin 2))
      (twoReaders ++ [.commit 0, .issue 1])).map (fun x => x.2.map Prod.snd) =
        some [.draft 1, .integrityError] := by
    decide +kernel
  obtain ⟨x, hrun, hends⟩ := Option.map_eq_some_iff.mp heval
  refine ⟨x, hrun, by decide +kernel, hends, fun hvisits => ?_⟩
  have hmem : DraftResult.integrityError ∈ x.2.map Prod.snd := by simp [hends]
  obtain ⟨r, hr, hfailed⟩ := List.mem_map.mp hmem
  have hdocumented := (hvisits.last hrun).documented r hr
  simp [hfailed] at hdocumented

end Orqent
