/-
Every cycle shares an edge with a reported one.

Take the edges of the reported cycles out of the graph (`without`).  What is left has no
back edge, so the nodes are finished in a topological order of it and it is acyclic: a
cycle of the graph must go along an edge that was taken out.

`SearchSpec` is what a step of the search keeps: the path, the reports, the order in
which nodes are finished, and the count of the edges still to be looked at.
-/
import Orqent.Graph.CyclePath

namespace Orqent

variable {Value : Type} {g : WorkflowGraph Value} {s : CycleSearch}

/-- The graph without the edges that lead along one of these cycles. -/
def WorkflowGraph.without (g : WorkflowGraph Value) (cycles : List (List NodeKey)) :
    WorkflowGraph Value where
  nodes := g.nodes
  edges := g.edges.filter fun e =>
    decide (∀ c ∈ cycles, (e.sourceKey, e.targetKey) ∉ ClosedWalk.pairs c)
  keys_nodup := g.keys_nodup
  source_mem := fun e he => g.source_mem e (List.mem_of_mem_filter he)
  target_mem := fun e he => g.target_mem e (List.mem_of_mem_filter he)
  edges_nodup := g.edges_nodup.filter _

theorem WorkflowGraph.feeds_without {cycles : List (List NodeKey)} {a b : NodeKey} :
    (g.without cycles).Feeds a b ↔ g.Feeds a b ∧ ∀ c ∈ cycles, (a, b) ∉ ClosedWalk.pairs c := by
  unfold WorkflowGraph.Feeds WorkflowGraph.without
  simp only [List.mem_filter, decide_eq_true_eq]
  constructor
  · intro h
    obtain ⟨e, ⟨he, hnot⟩, rfl, rfl⟩ := h
    exact ⟨⟨e, he, rfl, rfl⟩, hnot⟩
  · intro h
    obtain ⟨⟨e, he, rfl, rfl⟩, hnot⟩ := h
    exact ⟨e, ⟨he, hnot⟩, rfl, rfl⟩

namespace CycleSearch

/-! ### The order in which nodes are finished -/

/-- The finished nodes in topological order, and what is pending, but for reported edges. -/
structure CoverOk (g : WorkflowGraph Value) (s : CycleSearch) : Prop where
  finished : ∃ order, Digraph.Topological (g.without s.cycles).Feeds order ∧
    ∀ k, k ∈ order ↔ s.colour k = .black
  pending : Pending (g.without s.cycles) s.colour none s.stack

/-- Fewer edges leave no more pending. -/
theorem Pending.weaken {g' : WorkflowGraph Value} (h : ∀ a b, g'.Feeds a b → g.Feeds a b)
    {colour : NodeKey → Colour} {above : Option NodeKey} {stack : List (NodeKey × List NodeKey)}
    (hp : Pending g colour above stack) : Pending g' colour above stack := by
  induction stack generalizing above with
  | nil => trivial
  | cons entry below ih =>
      obtain ⟨node, rest⟩ := entry
      exact ⟨fun b hb => hp.1 b (h _ _ hb), ih hp.2⟩

theorem topological_weaken {r r' : NodeKey → NodeKey → Prop} (h : ∀ a b, r' a b → r a b)
    {order : List NodeKey} (htop : Digraph.Topological r order) : Digraph.Topological r' order := by
  induction htop with
  | nil => exact .nil
  | cons a rest hsucc _ ih => exact .cons a rest (fun b hb => hsucc b (h a b hb)) ih

/-- The node on top is finished once it has nothing left to look at. -/
theorem CoverOk.finish (h : CoverOk g s) {node : NodeKey} {below : List (NodeKey × List NodeKey)}
    (hstack : s.stack = (node, []) :: below) : CoverOk g (s.finish node below) := by
  obtain ⟨order, htop, hblack⟩ := h.finished
  have hpending := h.pending
  rw [hstack] at hpending
  have hdone : Function.update s.colour node .black node = .black := Function.update_self ..
  refine ⟨⟨node :: order, .cons node order (fun b hb => ?_) htop, fun k => ?_⟩, ?_⟩
  · rcases hpending.1 b hb with hrest | hb | habove
    · simp at hrest
    · exact (hblack b).mpr hb
    · simp at habove
  · show k ∈ node :: order ↔ Function.update s.colour node .black k = .black
    by_cases hk : k = node
    · simp [hk]
    · simp [hk, hblack k]
  · refine Pending.finish hdone (Pending.mono (fun k hk => ?_) hpending.2)
    by_cases hnode : k = node
    · simp [hnode]
    · simpa [hnode] using hk

/-- Putting a node on top that was not visited finishes none. -/
theorem update_grey_black {colour : NodeKey → Colour} {key : NodeKey} (hwhite : colour key = .white)
    (k : NodeKey) : Function.update colour key .grey k = .black ↔ colour k = .black := by
  by_cases hk : k = key
  · subst hk
    simp [hwhite]
  · simp [hk]

theorem CoverOk.descend (h : CoverOk g s) {node successor : NodeKey} {rest : List NodeKey}
    {below : List (NodeKey × List NodeKey)}
    (hstack : s.stack = (node, successor :: rest) :: below) (hwhite : s.colour successor = .white) :
    CoverOk g ((s.pass node rest below).descend g successor) := by
  obtain ⟨order, htop, hblack⟩ := h.finished
  have hkeep := update_grey_black hwhite
  have hpending := Pending.mono (fun k hk => (hkeep k).mpr hk) h.pending
  rw [hstack] at hpending
  refine ⟨⟨order, htop, fun k => (hblack k).trans (hkeep k).symm⟩,
    fun b hb => ?_, fun b hb => ?_, hpending.2⟩
  · exact Or.inl (mem_successors.mpr (WorkflowGraph.feeds_without.mp hb).1)
  · rcases hpending.1 b hb with hb | hb | habove
    · rcases List.mem_cons.mp hb with rfl | hb
      · exact Or.inr (Or.inr rfl)
      · exact Or.inl hb
    · exact Or.inr (Or.inl hb)
    · simp at habove

/-- A successor that is finished, or whose edge is on a reported cycle, need not be looked
at any more. -/
theorem CoverOk.settle (h : CoverOk g s) {s' : CycleSearch} {node successor : NodeKey}
    {rest : List NodeKey} {below : List (NodeKey × List NodeKey)}
    (hstack : s.stack = (node, successor :: rest) :: below)
    (hstack' : s'.stack = (node, rest) :: below)
    (hcolour : s'.colour = s.colour) (hcycles : ∀ c ∈ s.cycles, c ∈ s'.cycles)
    (hsettled : s.colour successor = .black ∨
      ∃ c ∈ s'.cycles, (node, successor) ∈ ClosedWalk.pairs c) : CoverOk g s' := by
  have hfewer : ∀ a b, (g.without s'.cycles).Feeds a b → (g.without s.cycles).Feeds a b := by
    intro a b hab
    obtain ⟨hfeeds, hnot⟩ := WorkflowGraph.feeds_without.mp hab
    exact WorkflowGraph.feeds_without.mpr ⟨hfeeds, fun c hc => hnot c (hcycles c hc)⟩
  obtain ⟨order, htop, hblack⟩ := h.finished
  have hpending := Pending.weaken hfewer h.pending
  rw [hstack] at hpending
  refine ⟨⟨order, topological_weaken hfewer htop, fun k => by rw [hcolour]; exact hblack k⟩, ?_⟩
  rw [hcolour, hstack']
  refine ⟨fun b hb => ?_, hpending.2⟩
  rcases hpending.1 b hb with hmem | hmem | habove
  · rcases List.mem_cons.mp hmem with rfl | hmem
    · rcases hsettled with hdone | ⟨c, hc, hpair⟩
      · exact Or.inr (Or.inl hdone)
      · exact absurd hpair ((WorkflowGraph.feeds_without.mp hb).2 c hc)
    · exact Or.inl hmem
  · exact Or.inr (Or.inl hmem)
  · simp at habove

/-! ### The whole invariant -/

/-- What the search keeps, beside `SearchOk`. -/
structure SearchSpec (g : WorkflowGraph Value) (s : CycleSearch) : Prop where
  path : PathOk g s
  reports : ReportsOk g s
  cover : CoverOk g s
  count : s.cycles.length + unseen g s ≤ g.edges.length

theorem empty_spec (g : WorkflowGraph Value) : SearchSpec g empty where
  path := ⟨rfl, List.nodup_nil, fun k => by simp [empty], by simp [empty], by simp [empty],
    by simp [empty]⟩
  reports := ⟨by simp [empty], by simp [empty], List.nodup_nil⟩
  cover := ⟨⟨[], .nil, fun k => by simp [empty]⟩, trivial⟩
  count := by
    have hall : toSee g empty.colour = fun k => (successors g k).length := by
      funext k
      simp [toSee, empty]
    show 0 + ((g.nodeKeys.map (toSee g empty.colour)).sum + 0) ≤ g.edges.length
    rw [hall, Nat.zero_add]
    exact sum_successors_le

theorem finish_spec (h : SearchSpec g s) {node : NodeKey} {below : List (NodeKey × List NodeKey)}
    (hstack : s.stack = (node, []) :: below) : SearchSpec g (s.finish node below) where
  path := h.path.finish hstack
  reports := ⟨h.reports.seen, h.reports.genuine, h.reports.distinct⟩
  cover := h.cover.finish hstack
  count := by
    have hcount := h.count
    have hgrey : s.colour node = .grey := by
      rw [h.path.grey, h.path.path_eq, hstack]
      simp
    have hsame : toSee g (Function.update s.colour node .black) = toSee g s.colour := by
      funext k
      by_cases hk : k = node
      · simp [toSee, hk, hgrey]
      · simp [toSee, hk]
    simp only [unseen, hstack, List.map_cons, List.sum_cons, List.length_nil,
      Nat.zero_add] at hcount
    simpa [unseen, CycleSearch.finish, hsame] using hcount

theorem unseen_pass {node successor : NodeKey} {rest : List NodeKey}
    {below : List (NodeKey × List NodeKey)}
    (hstack : s.stack = (node, successor :: rest) :: below) :
    unseen g (s.pass node rest below) + 1 = unseen g s := by
  simp only [unseen, CycleSearch.pass, hstack, List.map_cons, List.sum_cons, List.length_cons]
  omega

theorem descend_spec (h : SearchSpec g s) {node successor : NodeKey} {rest : List NodeKey}
    {below : List (NodeKey × List NodeKey)} (hstack : s.stack = (node, successor :: rest) :: below)
    (hwhite : s.colour successor = .white) (hfeeds : g.Feeds node successor) :
    SearchSpec g ((s.pass node rest below).descend g successor) where
  path := (h.path.pass hstack).descend rfl hwhite hfeeds
  reports := ⟨h.reports.seen, h.reports.genuine, h.reports.distinct⟩
  cover := h.cover.descend hstack hwhite
  count := by
    have hpass := unseen_pass (g := g) hstack
    have hsum := toSee_visited (WorkflowGraph.feeds_mem hfeeds).2 hwhite
    have hcount := h.count
    simp only [unseen, CycleSearch.pass, List.map_cons, List.sum_cons] at hpass
    simp only [unseen, CycleSearch.pass, CycleSearch.descend, List.map_cons, List.sum_cons]
    unfold unseen at hcount
    omega

/-- A back edge is reported. -/
theorem close_spec (h : SearchSpec g s) {node successor : NodeKey} {rest : List NodeKey}
    {below : List (NodeKey × List NodeKey)} (hstack : s.stack = (node, successor :: rest) :: below)
    (hgrey : s.colour successor = .grey) (hfeeds : g.Feeds node successor) :
    SearchSpec g ((s.pass node rest below).close successor) := by
  have hpath := h.path.pass hstack
  have hreports : ReportsOk g (s.pass node rest below) :=
    ⟨h.reports.seen, h.reports.genuine, h.reports.distinct⟩
  obtain ⟨hclosed, hnodup, hpair⟩ := hpath.closes rfl hgrey hfeeds
  have hmem := close_mem hreports successor
  have hkept : ∀ c ∈ s.cycles, c ∈ ((s.pass node rest below).close successor).cycles := by
    intro c hc
    rcases close_eq hreports successor with ⟨hsame, -⟩ | ⟨hnew, -⟩
    · rw [hsame]
      exact hc
    · rw [hnew]
      exact List.mem_append_left _ hc
  refine ⟨?_, hreports.close hclosed hnodup, ?_, ?_⟩
  · have hsame : PathOk g ((s.pass node rest below).close successor) ↔
        PathOk g (s.pass node rest below) := by
      unfold CycleSearch.close
      dsimp only
      split
      · exact Iff.rfl
      · exact ⟨fun h => ⟨h.1, h.2, h.3, h.4, h.5, h.6⟩, fun h => ⟨h.1, h.2, h.3, h.4, h.5, h.6⟩⟩
    exact hsame.mpr hpath
  · refine h.cover.settle hstack (close_stack _) (close_colour _) hkept (Or.inr ⟨_, hmem, ?_⟩)
    exact (ClosedWalk.mem_pairs_of_isRotated normalise_rotated).mp hpair
  · have hunseen : unseen g ((s.pass node rest below).close successor) =
        unseen g (s.pass node rest below) := by
      unfold unseen
      rw [close_colour, close_stack]
    have hpass := unseen_pass (g := g) hstack
    have hcount := h.count
    have hlength :
        ((s.pass node rest below).close successor).cycles.length ≤ s.cycles.length + 1 := by
      rcases close_eq hreports successor with ⟨hsame, -⟩ | ⟨hnew, -⟩
      · rw [hsame]
        exact Nat.le_succ _
      · rw [hnew, List.length_append]
        exact Nat.le_refl _
    omega

/-- **A step keeps all of it.** -/
theorem SearchSpec.step (h : SearchSpec g s) : SearchSpec g (s.step g) := by
  rcases step_cases g s with heq | ⟨node, below, hstack, heq⟩ |
    ⟨node, successor, rest, below, hstack, hcases⟩
  · rw [heq]
    exact h
  · rw [heq]
    exact finish_spec h hstack
  · have hfeeds : g.Feeds node successor := by
      refine h.path.rest (node, successor :: rest) ?_ successor List.mem_cons_self
      rw [hstack]
      exact List.mem_cons_self
    rcases hcases with ⟨hwhite, heq⟩ | ⟨hgrey, heq⟩ | ⟨hblack, heq⟩
    · rw [heq]
      exact descend_spec h hstack hwhite hfeeds
    · rw [heq]
      exact close_spec h hstack hgrey hfeeds
    · rw [heq]
      have hpass := unseen_pass (g := g) hstack
      have hcount := h.count
      have hfewer : (s.pass node rest below).cycles.length + unseen g (s.pass node rest below) ≤
          g.edges.length := by
        show s.cycles.length + unseen g (s.pass node rest below) ≤ g.edges.length
        omega
      exact ⟨h.path.pass hstack, ⟨h.reports.seen, h.reports.genuine, h.reports.distinct⟩,
        h.cover.settle hstack rfl rfl (fun c hc => hc) (Or.inl hblack), hfewer⟩

theorem start_spec (h : SearchSpec g s) (hstack : s.stack = []) {key : NodeKey}
    (hkey : key ∈ g.nodeKeys) (hwhite : s.colour key = .white) : SearchSpec g (s.start g key) := by
  have hnone : ∀ k, s.colour k ≠ .grey := by
    intro k hk
    rw [h.path.grey, h.path.path_eq, hstack] at hk
    simp at hk
  obtain ⟨order, htop, hblack⟩ := h.cover.finished
  refine ⟨⟨rfl, by simp [CycleSearch.start], fun k => ?_, fun i k hk => ?_,
    by simp [CycleSearch.start],
      fun entry hentry b hb => ?_⟩, ⟨h.reports.seen, h.reports.genuine, h.reports.distinct⟩,
    ⟨⟨order, htop, fun k => (hblack k).trans (update_grey_black hwhite k).symm⟩, fun b hb => ?_,
      trivial⟩,
    ?_⟩
  · show Function.update s.colour key .grey k = .grey ↔ k ∈ [key]
    by_cases hk : k = key
    · simp [hk]
    · simp [hk, hnone k]
  · have hk' : [key][i]? = some k := hk
    have hi : i = 0 := by
      have hlt := (List.getElem?_eq_some_iff.mp hk').1
      simpa using hlt
    subst hi
    obtain rfl : key = k := by simpa using hk'
    exact Function.update_self ..
  · obtain rfl := List.mem_singleton.mp hentry
    exact mem_successors.mp hb
  · exact Or.inl (mem_successors.mpr (WorkflowGraph.feeds_without.mp hb).1)
  · have hsum := toSee_visited hkey hwhite
    have hcount := h.count
    simp only [unseen, hstack, List.map_nil, List.sum_nil, Nat.add_zero] at hcount
    simp only [unseen, CycleSearch.start, List.map_cons, List.map_nil, List.sum_cons, List.sum_nil]
    omega

/-- **What the search has kept when it ends**, with every node finished. -/
theorem search_spec (g : WorkflowGraph Value) :
    SearchSpec g (g.nodeKeys.foldl (visit g) .empty) ∧
      ∀ k ∈ g.nodeKeys, (g.nodeKeys.foldl (visit g) .empty).colour k = .black := by
  obtain ⟨hok, hstack, -, hall⟩ := visit_all (empty_ok g) rfl fun k (hk : k ∈ g.nodeKeys) => hk
  have hspec : SearchSpec g (g.nodeKeys.foldl (visit g) .empty) :=
    visit_rule (fun s h => h.step) (fun s key h hstack hkey hwhite =>
      start_spec h hstack hkey hwhite)
      (fun k hk => hk) (empty_ok g) rfl (empty_spec g)
  refine ⟨hspec, fun k hk => ?_⟩
  cases hcolour : (g.nodeKeys.foldl (visit g) .empty).colour k with
  | white => exact absurd hcolour (hall k hk)
  | grey =>
      have hgrey := hok.grey_on_stack k hcolour
      simp [hstack] at hgrey
  | black => rfl

end CycleSearch

/-! ### The cycles that are found -/

/-- **Without the edges of the reported cycles no cycle is left.** -/
theorem acyclic_without (g : WorkflowGraph Value) : (g.without (findCycles g)).Acyclic := by
  obtain ⟨hspec, hall⟩ := CycleSearch.search_spec g
  obtain ⟨order, htop, hiff⟩ := hspec.cover.finished
  refine Digraph.acyclic_of_topological htop fun a b hab => (hiff a).mpr (hall a ?_)
  exact (WorkflowGraph.feeds_mem (WorkflowGraph.feeds_without.mp hab).1).1

/-- Every closed walk shares a pair with a reported cycle. -/
theorem findCycles_covers {c : List NodeKey} (h : ClosedWalk.IsClosed g.Feeds c) :
    ∃ d ∈ findCycles g, ∃ p ∈ ClosedWalk.pairs c, p ∈ ClosedWalk.pairs d := by
  by_contra hnone
  have hleft : ClosedWalk.IsClosed (g.without (findCycles g)).Feeds c := by
    refine ⟨h.1, fun p hp => WorkflowGraph.feeds_without.mpr ⟨h.2 p hp, fun d hd hpd => ?_⟩⟩
    exact hnone ⟨d, hd, p, hp, hpd⟩
  obtain ⟨a, ha⟩ := hleft.transGen
  exact acyclic_without g a ha

theorem findCycles_eq_nil_iff : findCycles g = [] ↔ g.Acyclic := by
  refine ⟨findCycles_complete, fun h => ?_⟩
  by_contra hne
  obtain ⟨c, rest, hc⟩ := List.exists_cons_of_ne_nil hne
  obtain ⟨hspec, -⟩ := CycleSearch.search_spec g
  have hmem : c ∈ (g.nodeKeys.foldl (CycleSearch.visit g) .empty).cycles := by
    show c ∈ findCycles g
    rw [hc]
    exact List.mem_cons_self
  obtain ⟨a, ha⟩ := (hspec.reports.genuine c hmem).1.transGen
  exact h a ha

/-- No pass of the search ends with a path still open. -/
theorem visit_ends (g : WorkflowGraph Value) {keys : List NodeKey} (h : keys <+: g.nodeKeys) :
    (keys.foldl (CycleSearch.visit g) .empty).stack = [] :=
  (CycleSearch.visit_all (CycleSearch.empty_ok g) rfl fun _ hk => h.subset hk).2.1

/--
**The cycle search is sound, complete and bounded.**  Every pass of it empties its stack.
What it returns are node sequences of simple cycles, no two of them rotations of each
other, and no more than there are edges.  Every closed walk shares a pair of consecutive
nodes with one of them, so there are none exactly when the graph is acyclic.
-/
theorem findCycles_spec (g : WorkflowGraph Value) :
    (∀ keys, keys <+: g.nodeKeys → (keys.foldl (CycleSearch.visit g) .empty).stack = []) ∧
      (∀ c ∈ findCycles g, ClosedWalk.IsClosed g.Feeds c ∧ c.Nodup) ∧
      (findCycles g).Pairwise (fun c d => ¬ c.IsRotated d) ∧
      (findCycles g).length ≤ g.edges.length ∧
      (∀ c, ClosedWalk.IsClosed g.Feeds c →
        ∃ d ∈ findCycles g, ∃ p ∈ ClosedWalk.pairs c, p ∈ ClosedWalk.pairs d) ∧
      (findCycles g = [] ↔ g.Acyclic) := by
  obtain ⟨hspec, -⟩ := CycleSearch.search_spec g
  refine ⟨fun keys => visit_ends g, fun c hc => ?_, hspec.reports.not_rotated, ?_,
    fun c => findCycles_covers, findCycles_eq_nil_iff⟩
  · obtain ⟨hclosed, hnodup, -⟩ := hspec.reports.genuine c hc
    exact ⟨hclosed, hnodup⟩
  · exact Nat.le_trans (Nat.le_add_right ..) hspec.count

end Orqent
