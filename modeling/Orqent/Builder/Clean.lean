/-
What a page means that shows nothing to save.

Where the page is clean, its canvas is what the server last gave it or took from it; and if
that is still the draft, the canvas is the draft.  The answer to a save makes the page clean
whatever the canvas has become since the save was sent, so this is lost exactly by an answer
that does not find the canvas as it was sent: the changes made in the meantime look saved.
-/
import Orqent.Builder.Saving

namespace Orqent.Builder

open Trace

variable {Config ι : Type}

/-! ### What leaves the page clean -/

section Store

variable {F : XyFlow Config} {s : BuilderState Config}

theorem map_pair_congr {α β γ : Type} {f : α → β} {g : α → γ} {xs ys : List α}
    (hf : xs.map f = ys.map f) (hg : xs.map g = ys.map g) :
    xs.map (fun x => (f x, g x)) = ys.map fun x => (f x, g x) := by
  induction xs generalizing ys with
  | nil =>
      rw [List.map_nil, eq_comm, List.map_eq_nil_iff] at hf
      rw [hf]
  | cons x xs ih =>
      cases ys with
      | nil => cases hf
      | cons y ys =>
          simp only [List.map_cons, List.cons.injEq] at hf hg ⊢
          exact ⟨by rw [hf.1, hg.1], ih hf.2 hg.2⟩

theorem plain_of_not_meaningful {c : NodeChange Config} (h : c.meaningful = false) :
    c.plain = true := by
  cases c <;> first | rfl | exact absurd h (by simp [NodeChange.meaningful])

theorem removedNodes_of_not_meaningful {changes : List (NodeChange Config)}
    (h : ∀ c ∈ changes, c.meaningful = false) : removedNodes changes = [] := by
  refine List.filterMap_eq_nil_iff.mpr fun c hc => ?_
  have hc := h c hc
  cases c <;> first | rfl | exact absurd hc (by simp [NodeChange.meaningful])

theorem removedEdges_of_not_meaningful {changes : List EdgeChange}
    (h : ∀ c ∈ changes, c.meaningful = false) :
    (∀ c ∈ changes, c.plain = true) ∧ removedEdges changes = [] := by
  constructor
  · intro c hc
    have hc := h c hc
    cases c <;> first | rfl | exact absurd hc (by simp [EdgeChange.meaningful])
  · refine List.filterMap_eq_nil_iff.mpr fun c hc => ?_
    have hc := h c hc
    cases c <;> first | rfl | exact absurd hc (by simp [EdgeChange.meaningful])

/-- Selecting and measuring nodes leaves what would be sent of them. -/
theorem toGraph_still (hF : F.Documented) {changes : List (NodeChange Config)}
    (h : ∀ c ∈ changes, c.meaningful = false) :
    (F.applyNodeChanges changes s.nodes).map FlowNode.toGraph = s.nodes.map FlowNode.toGraph := by
  have hnamed := hF.nodes_kept changes s.nodes fun c hc => plain_of_not_meaningful (h c hc)
  rw [removedNodes_of_not_meaningful h] at hnamed
  simp only [List.not_mem_nil, not_false_eq_true, decide_true, List.filter_true] at hnamed
  have hboth := congrArg (List.map fun p => (⟨p.1.2.nodeKey, p.1.2.type, p.1.2.version, p.1.2.label,
    p.1.2.config, p.2.round⟩ : GraphNode Config))
      (map_pair_congr hnamed (hF.nodes_still changes s.nodes h))
  rw [List.map_map, List.map_map] at hboth
  exact hboth

/-- Selecting edges leaves what would be sent of them. -/
theorem toGraph_edges_still (hF : F.Documented) {changes : List EdgeChange}
    (h : ∀ c ∈ changes, c.meaningful = false) :
    (F.applyEdgeChanges changes s.edges).map FlowEdge.toGraph = s.edges.map FlowEdge.toGraph := by
  obtain ⟨hplain, hnone⟩ := removedEdges_of_not_meaningful h
  have hkept := hF.edges_kept changes s.edges hplain
  rw [hnone] at hkept
  simp only [List.not_mem_nil, not_false_eq_true, decide_true, List.filter_true] at hkept
  have hsent := congrArg (List.map fun c => (⟨c.source, c.sourceHandle.getD "main", c.target,
    c.targetHandle.getD "main"⟩ : GraphEdge)) hkept
  rw [List.map_map, List.map_map] at hsent
  exact hsent

variable [EmptyCollection Config]

/-- **What leaves the page clean has changed nothing that would be sent.** -/
theorem act_clean (hF : F.Documented) {a : BuilderAction Config} (h : (s.act F a).dirty = false) :
    s.dirty = false ∧ (s.act F a).toGraph = s.toGraph := by
  cases a with
  | onNodesChange changes =>
      obtain ⟨hdirty, hany⟩ : s.dirty = false ∧ changes.any NodeChange.meaningful = false :=
        Bool.or_eq_false_iff.mp h
      have hstill : ∀ c ∈ changes, c.meaningful = false := by
        simpa using List.any_eq_false.mp hany
      exact ⟨hdirty, congrArg (Content.mk · _) (toGraph_still hF hstill)⟩
  | onEdgesChange changes =>
      obtain ⟨hdirty, hany⟩ : s.dirty = false ∧ changes.any EdgeChange.meaningful = false :=
        Bool.or_eq_false_iff.mp h
      have hstill : ∀ c ∈ changes, c.meaningful = false := by
        simpa using List.any_eq_false.mp hany
      exact ⟨hdirty, congrArg (Content.mk _) (toGraph_edges_still hF hstill)⟩
  | connect c =>
      by_cases hnowhere : c.source = "" ∨ c.target = ""
      · have hsame : s.act F (.connect c) = s := if_pos hnowhere
        rw [hsame] at h ⊢
        exact ⟨h, rfl⟩
      · have hdirty : (s.act F (.connect c)).dirty = true := by
          show (s.connect F c).dirty = true
          rw [BuilderState.connect, if_neg hnowhere]
        rw [hdirty] at h
        cases h
  | addNode descriptor position => cases h
  | updateConfig nodeKey config => cases h
  | select nodeKey =>
      refine ⟨h, ?_⟩
      simp [BuilderState.act, BuilderState.select, BuilderState.toGraph, Function.comp_def,
        FlowNode.toGraph]

end Store

/-! ### Pages that show nothing to save -/

/-- Where it shows nothing to save, the canvas is what the server last acknowledged. -/
def Page.Clean (p : Page Config) : Prop :=
  ∀ b, p.base = some b → p.store.dirty = false → p.store.toGraph = b.graph.rounded

/-- Every page is clean. -/
def Clean (s : Site ι Config) : Prop := ∀ i, (s.pages i).Clean

/-- What was taken, if the answer to such a save arrives. -/
def Page.arriving (p : Page Config) (k : Nat) : Option (Served (Content Config)) :=
  match p.mutations[k]? with
  | some ⟨.saveAnswered _ reply, _⟩ => reply
  | _ => none

/-- The answer to a save that was taken finds the canvas as it was sent. -/
def Undisturbed (s : Site ι Config) : SiteEvent ι Config → Prop
  | .page i (.receive k) => ∀ saved, (s.pages i).arriving k = some saved →
      (s.pages i).store.toGraph = saved.graph
  | _ => True

section Pages

variable {P : Setting Config} {p p' : Page Config} {k : Nat}

theorem Page.Clean.effect (h : p.Clean) : (p.effect P).Clean := by
  unfold Page.effect
  split
  · exact h
  rename_i draft hdata
  split
  · exact h
  · intro b hb _
    obtain rfl := Option.some.inj hb
    exact toGraph_load _ _ _

theorem arriving_of_task {m : Mutation (Content Config)} {next : Option Errand}
    {reply : Option (Served (Content Config))} (hm : p.mutations[k]? = some m)
    (htask : m.task = .saveAnswered next reply) : p.arriving k = reply := by
  obtain ⟨task, orphan⟩ := m
  obtain rfl : task = _ := htask
  rw [Page.arriving, hm]

/-- What was taken is on the grid. -/
theorem Page.Ok.arriving (h : p.Ok) {saved : Served (Content Config)}
    (harriving : p.arriving k = some saved) : saved.graph.rounded = saved.graph := by
  unfold Page.arriving at harriving
  split at harriving
  · rename_i next reply orphan hm
    have hok := h.tasks _ (List.mem_of_getElem? hm)
    rw [harriving] at hok
    exact hok
  · cases harriving

/-- The answer to a save that was taken makes the page clean as it stands. -/
theorem clean_gotSaved_iff {saved : Served (Content Config)}
    (hrounded : saved.graph.rounded = saved.graph) (hbase : p'.base = some saved)
    (hstore : p'.store = (p.store.setRevision saved.revision).markClean) :
    p'.Clean ↔ p.store.toGraph = saved.graph := by
  unfold Page.Clean
  rw [hbase, hstore]
  constructor
  · intro h
    exact (h saved rfl rfl).trans hrounded
  · intro h b hb _
    obtain rfl := Option.some.inj hb
    exact h.trans hrounded.symm

/-- What an answer leaves of the canvas. -/
theorem canvas_received {m : Mutation (Content Config)} (hm : p.mutations[k]? = some m)
    (h : p.Receives k m p') :
    (∃ saved, p.arriving k = some saved ∧ p'.base = some saved ∧
        p'.store = (p.store.setRevision saved.revision).markClean) ∨
      (p.arriving k = none ∧ p'.base = p.base ∧ p'.store = p.store) := by
  cases h with
  | saved htask => exact Or.inl ⟨_, arriving_of_task hm htask, rfl, rfl⟩
  | savedFirst htask => exact Or.inl ⟨_, arriving_of_task hm htask, rfl, rfl⟩
  | ended htask hfetch =>
      refine Or.inr ⟨Option.eq_none_iff_forall_ne_some.mpr fun saved harriving => ?_, rfl, rfl⟩
      unfold Page.arriving at harriving
      split at harriving
      · rename_i next reply orphan hsame
        obtain rfl := Option.some.inj (hm.symm.trans hsame)
        exact htask next saved (by rw [harriving])
      · cases harriving

/-- A page stays clean, unless an answer finds another canvas than was sent. -/
theorem page_clean [EmptyCollection Config] (hF : P.flow.Documented) {a : PageAct Config}
    (hok : p.Ok) (h : p.Clean) (hstep : p.step P a = some p')
    (hsame : ∀ k, a = .receive k → ∀ saved, p.arriving k = some saved →
      p.store.toGraph = saved.graph) : p'.Clean := by
  cases a with
  | mount store cached =>
      obtain rfl := Option.some.inj hstep
      exact Page.Clean.effect fun b hb => (by cases hb)
  | act a =>
      simp only [Page.step, Option.ite_none_right_eq_some, Option.some.injEq] at hstep
      obtain ⟨-, rfl⟩ := hstep
      intro b hb hclean
      obtain ⟨hdirty, hgraph⟩ := act_clean hF hclean
      exact hgraph.trans (h b hb hdirty)
  | save =>
      simp only [Page.step, Option.ite_none_right_eq_some, Option.some.injEq] at hstep
      obtain ⟨-, rfl⟩ := hstep
      exact h
  | start errand =>
      simp only [Page.step, Option.ite_none_right_eq_some] at hstep
      obtain ⟨-, hstep⟩ := hstep
      split at hstep
      · obtain rfl := Option.some.inj hstep
        exact h
      · obtain rfl := Option.some.inj hstep
        exact h
  | refetch =>
      simp only [Page.step, Option.ite_none_right_eq_some, Option.some.injEq] at hstep
      obtain ⟨-, rfl⟩ := hstep
      exact h
  | receiveDraft =>
      simp only [Page.step] at hstep
      split at hstep
      · rename_i reply hfetch
        obtain rfl := Option.some.inj hstep
        cases reply with
        | none => exact h
        | some draft =>
            have hgot : Page.Clean { p with fetch := none, data := some draft } := h
            exact hgot.effect
      · cases hstep
  | receive k =>
      obtain ⟨m, hm, hreceived⟩ := Option.bind_eq_some_iff.mp hstep
      rcases canvas_received hm (Page.receives_of_received hreceived) with
        ⟨saved, harriving, hbase, hstore⟩ | ⟨-, hbase, hstore⟩
      · exact (clean_gotSaved_iff (hok.arriving harriving) hbase hstore).mpr
          (hsame k rfl saved harriving)
      · unfold Page.Clean
        rw [hbase, hstore]
        exact h

end Pages

section Runs

variable [DecidableEq ι] [EmptyCollection Config] {P : Setting Config} {s s' : Site ι Config}
  {e : SiteEvent ι Config}

/-- The server's part of a step leaves the canvases alone. -/
theorem canvas_served {i : ι} (hstep : s.step P e = some s') (he : ∀ a, e ≠ .page i a) :
    (s'.pages i).store = (s.pages i).store ∧ (s'.pages i).base = (s.pages i).base := by
  have hput : ∀ {j : ι} {p : Page Config}, s'.pages = (s.putPage j p).pages →
      p.store = (s.pages j).store → p.base = (s.pages j).base →
      (s'.pages i).store = (s.pages i).store ∧ (s'.pages i).base = (s.pages i).base := by
    intro j p hpages hstore hbase
    rw [hpages, Site.pages_putPage]
    split
    · rename_i hj
      subst hj
      exact ⟨hstore, hbase⟩
    · exact ⟨rfl, rfl⟩
  have hpages : ∀ {task task' : Task (Content Config)} {after : Site ι Config},
      s.serveTask P task = some (task', after) → after.pages = s.pages := by
    intro task task' after hserve
    cases Site.serves_of_serveTask hserve <;> rfl
  cases e with
  | page j a =>
      obtain ⟨p, -, rfl⟩ := Option.map_eq_some_iff.mp hstep
      have hne : i ≠ j := fun hc => he a (hc ▸ rfl)
      simp [hne]
  | serveDraft j =>
      simp only [Site.step] at hstep
      split at hstep
      · obtain rfl := Option.some.inj hstep
        exact hput rfl rfl rfl
      · cases hstep
  | serve j k =>
      obtain ⟨m, hm, hserved⟩ := Option.bind_eq_some_iff.mp hstep
      obtain ⟨⟨task, after⟩, hserve, rfl⟩ := Option.map_eq_some_iff.mp hserved
      refine hput (j := j) (p := (s.pages j).putTask k m task) ?_ rfl rfl
      show Function.update after.pages j _ = Function.update s.pages j _
      rw [hpages hserve]
  | serveLate k =>
      obtain ⟨task, hlate, hserved⟩ := Option.bind_eq_some_iff.mp hstep
      obtain ⟨⟨task', after⟩, hserve, rfl⟩ := Option.map_eq_some_iff.mp hserved
      have hsame := hpages hserve
      exact ⟨congrArg (fun q => (q i).store) hsame, congrArg (fun q => (q i).base) hsame⟩
  | readDraft =>
      obtain rfl := Option.some.inj hstep
      exact ⟨rfl, rfl⟩
  | failDraft j =>
      simp only [Site.step, Option.ite_none_right_eq_some, Option.some.injEq] at hstep
      obtain ⟨-, rfl⟩ := hstep
      exact hput rfl rfl rfl
  | fail j k =>
      obtain ⟨m, hm, rfl⟩ := Option.map_eq_some_iff.mp hstep
      exact hput (j := j) (p := (s.pages j).putTask k m m.task.failed) rfl rfl rfl

/-- A step keeps the pages clean that were, if the answers find what was sent. -/
theorem clean_step (hF : P.flow.Documented) (hok : SiteOk s) (h : Clean s)
    (hundisturbed : Undisturbed s e) (hstep : s.step P e = some s') : Clean s' := by
  intro i
  by_cases he : ∃ a, e = .page i a
  · obtain ⟨a, rfl⟩ := he
    obtain ⟨p, hp, rfl⟩ := Option.map_eq_some_iff.mp hstep
    rw [Site.pages_putPage, if_pos rfl]
    refine page_clean hF (hok.pages i) (h i) hp fun k ha => ?_
    subst ha
    exact hundisturbed
  · obtain ⟨hstore, hbase⟩ := canvas_served (i := i) hstep fun a ha => he ⟨a, ha⟩
    unfold Page.Clean
    rw [hstore, hbase]
    exact h i

/-- Where the pages are clean after an answer, it found what was sent. -/
theorem undisturbed_of_clean (hok : SiteOk s) (hstep : s.step P e = some s') (h : Clean s') :
    Undisturbed s e := by
  cases e with
  | page i a =>
      cases a with
      | receive k =>
          intro saved harriving
          obtain ⟨p, hp, rfl⟩ := Option.map_eq_some_iff.mp hstep
          obtain ⟨m, hm, hreceived⟩ := Option.bind_eq_some_iff.mp hp
          have hi := h i
          rw [Site.pages_putPage, if_pos rfl] at hi
          rcases canvas_received hm (Page.receives_of_received hreceived) with
            ⟨saved', harriving', hbase, hstore⟩ | ⟨hnone, -, -⟩
          · obtain rfl := Option.some.inj (harriving.symm.trans harriving')
            exact (clean_gotSaved_iff ((hok.pages i).arriving harriving) hbase hstore).mp hi
          · rw [hnone] at harriving
            cases harriving
      | _ => exact trivial
  | _ => exact trivial

/--
**A page that shows nothing to save holds what the server has.**  In every state of a run, on
every page that was given a draft or has saved one, a clean canvas is what the server last gave
that page or took from it, if and only if every answer to a save found the canvas as it was
sent.  And then a clean canvas that is up to date is the draft.
-/
theorem clean_iff (hF : P.flow.Documented) {drafts : Drafts (Content Config)}
    {stores : ι → BuilderState Config} {events : List (SiteEvent ι Config)}
    (hrun : run (Site.step P) (.start drafts stores) events = some s) :
    (Visits (Site.step P) Clean (.start drafts stores) events ↔
        Along (Site.step P) Undisturbed (.start drafts stores) events) ∧
      (Along (Site.step P) Undisturbed (.start drafts stores) events → ∀ i b,
        (s.pages i).base = some b → (s.pages i).store.dirty = false →
        b.published = s.published → b.revision = s.current.revision →
        (s.pages i).store.toGraph = s.current.graph.rounded) := by
  have hstart : Clean (Site.start drafts stores) := fun i b hb => (by cases hb)
  have hexact := visits_iff_along (I := fun s => SiteOk s ∧ Clean s) (Q := Clean) (C := Undisturbed)
    (D := fun _ _ => True) ⟨siteOk_start drafts stores, hstart⟩ (fun s h => h.2)
    (fun _ s e s' _ h _ hc hstep => ⟨h.1.step hstep, clean_step hF h.1 h.2 hc hstep⟩)
    (fun _ s e s' _ h _ hstep hclean => undisturbed_of_clean h.1 hstep hclean) hrun
    (fun _ _ _ _ _ _ => trivial)
  refine ⟨hexact, fun hall i b hb hdirty hpublished hrevision => ?_⟩
  have hcanvas := (hexact.mpr hall).last hrun i b hb hdirty
  rcases ((siteOk hrun).known i b (Or.inl hb)).2 hpublished with hlt | hdraft
  · omega
  · rw [hcanvas, ← hdraft]

end Runs

/-! ### A save that is overtaken -/

/-- A second node is added before the answer to the first save is there. -/
def hurried : List (SiteEvent Unit (List String)) :=
  opened () ++ sentNode () ++ [.page () (.act (.addNode ⟨"core.log", 1⟩ ⟨0, 120⟩)),
    .serve () 0, .page () (.receive 0)]

/-- The second node is not saved, and the page shows nothing to save. -/
theorem hurried_not_clean : ¬ Visits (Site.step trial) Clean (trialSite Unit) hurried := by
  obtain ⟨s, hrun⟩ : ∃ s, run (Site.step trial) (trialSite Unit) hurried = some s := ⟨_, rfl⟩
  intro hclean
  have hall := (clean_iff plainFlow_documented hrun).1.mp hclean
  obtain ⟨t, ht⟩ : ∃ t, run (Site.step trial) (trialSite Unit) (hurried.take 6) = some t := ⟨_, rfl⟩
  have hfound := hall (hurried.take 6) (.page () (.receive 0)) [] rfl t ht
  obtain rfl := Option.some.inj ht
  have hnodes := congrArg (fun g => g.nodes.length) (hfound _ rfl)
  exact absurd hnodes (by decide)

end Orqent.Builder
