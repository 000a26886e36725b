/-
The cycle search misses no cycle.

A node is finished once all its successors are, so the finished nodes are listed in
topological order, unless a back edge was met; and a back edge is always reported.
When the search reports nothing, every node has been finished and the graph is
acyclic (`findCycles_complete`).

`SearchOk` is what a step keeps; `work` is what a step uses up, one for each, so the
number of steps the search is given is enough.
-/
import Orqent.Graph.Validation.Structure
import Mathlib.Algebra.Order.BigOperators.Group.List

namespace Orqent

variable {Value : Type} {g : WorkflowGraph Value} {s : CycleSearch} {key : NodeKey}

theorem mem_successors {a b : NodeKey} : b ∈ successors g a ↔ g.Feeds a b := by
  simp only [successors, List.mem_reverse, List.mem_dedup, List.mem_map, WorkflowGraph.outgoing,
    List.mem_filter, decide_eq_true_eq, WorkflowGraph.Feeds]
  constructor
  · intro h
    obtain ⟨e, ⟨he, hs⟩, ht⟩ := h
    exact ⟨e, he, hs, ht⟩
  · intro h
    obtain ⟨e, he, hs, ht⟩ := h
    exact ⟨e, ⟨he, hs⟩, ht⟩

theorem WorkflowGraph.feeds_mem {a b : NodeKey} (h : g.Feeds a b) :
    a ∈ g.nodeKeys ∧ b ∈ g.nodeKeys := by
  obtain ⟨e, he, rfl, rfl⟩ := h
  exact ⟨g.source_mem e he, g.target_mem e he⟩

namespace CycleSearch

/-! ### The invariant -/

/-- Every successor of a node on the stack is still to be looked at, or finished, or the
node above it. -/
def Pending (g : WorkflowGraph Value) (colour : NodeKey → Colour) :
    Option NodeKey → List (NodeKey × List NodeKey) → Prop
  | _, [] => True
  | above, (node, rest) :: below =>
      (∀ b, g.Feeds node b → b ∈ rest ∨ colour b = .black ∨ above = some b) ∧
        Pending g colour (some node) below

/-- What the search keeps. -/
structure SearchOk (g : WorkflowGraph Value) (s : CycleSearch) : Prop where
  stack_mem : ∀ entry ∈ s.stack, ∀ b ∈ entry.2, b ∈ g.nodeKeys
  grey_on_stack : ∀ k, s.colour k = .grey → k ∈ s.stack.map Prod.fst
  reported : ∀ c ∈ s.seen, c ∈ s.cycles
  finished : s.cycles = [] → ∃ order, Digraph.Topological g.Feeds order ∧
    ∀ k, k ∈ order ↔ s.colour k = .black
  pending : s.cycles = [] → Pending g s.colour none s.stack

/-- More finished nodes settle no less. -/
theorem Pending.mono {colour colour' : NodeKey → Colour}
    (h : ∀ k, colour k = .black → colour' k = .black)
    {above : Option NodeKey} {stack : List (NodeKey × List NodeKey)}
    (hp : Pending g colour above stack) : Pending g colour' above stack := by
  induction stack generalizing above with
  | nil => trivial
  | cons entry below ih =>
      obtain ⟨node, rest⟩ := entry
      exact ⟨fun b hb => (hp.1 b hb).imp_right (Or.imp_left (h b)), ih hp.2⟩

/-- Once the node above is finished it need not be named. -/
theorem Pending.finish {colour : NodeKey → Colour} {node : NodeKey} (hnode : colour node = .black)
    {stack : List (NodeKey × List NodeKey)} (hp : Pending g colour (some node) stack) :
    Pending g colour none stack := by
  cases stack with
  | nil => trivial
  | cons entry below =>
      refine ⟨fun b hb => ?_, hp.2⟩
      rcases hp.1 b hb with hrest | hblack | habove
      · exact Or.inl hrest
      · exact Or.inr (Or.inl hblack)
      · exact Or.inr (Or.inl (Option.some.inj habove ▸ hnode))

theorem empty_ok (g : WorkflowGraph Value) : SearchOk g empty where
  stack_mem := by
    intro entry h
    exact nomatch h
  grey_on_stack := fun _ h => nomatch h
  reported := by
    intro c h
    exact nomatch h
  finished := fun _ => ⟨[], .nil, fun k => by simp [empty]⟩
  pending := fun _ => trivial

theorem close_cycles (h : ∀ c ∈ s.seen, c ∈ s.cycles) (successor : NodeKey) :
    (s.close successor).cycles ≠ [] := by
  rw [close]
  split
  · rename_i hseen
    exact List.ne_nil_of_mem (h _ hseen)
  · simp

theorem close_reported (h : ∀ c ∈ s.seen, c ∈ s.cycles) (successor : NodeKey) :
    ∀ c ∈ (s.close successor).seen, c ∈ (s.close successor).cycles := by
  rw [close]
  split
  · exact h
  · intro c hc
    rcases List.mem_cons.mp hc with rfl | hc
    · exact List.mem_append_right _ List.mem_cons_self
    · exact List.mem_append_left _ (h c hc)

theorem close_colour (successor : NodeKey) : (s.close successor).colour = s.colour := by
  rw [close]
  split <;> rfl

theorem close_stack (successor : NodeKey) : (s.close successor).stack = s.stack := by
  rw [close]
  split <;> rfl

section Step

variable {colour : NodeKey → Colour} {path : List NodeKey} {depth : NodeKey → Nat}
  {node successor : NodeKey} {rest : List NodeKey} {below : List (NodeKey × List NodeKey)}
  {cycles seen : List (List NodeKey)}

/-- The node on top has no successor left: all of them are finished, and now it is. -/
theorem SearchOk.finish (h : SearchOk g ⟨colour, path, depth, (node, []) :: below, cycles, seen⟩) :
    SearchOk g (CycleSearch.step g ⟨colour, path, depth, (node, []) :: below, cycles, seen⟩) := by
  refine ⟨?_, ?_, h.reported, ?_, ?_⟩
  · intro entry hentry
    exact h.stack_mem entry (List.mem_cons_of_mem _ hentry)
  · intro k hk
    have hne : k ≠ node := by
      intro heq
      subst heq
      simp [CycleSearch.step] at hk
    have hgrey : colour k = .grey := by simpa [CycleSearch.step, hne] using hk
    rcases List.mem_cons.mp (h.grey_on_stack k hgrey) with hc | hc
    · exact absurd hc hne
    · exact hc
  · intro hnone
    obtain ⟨order, htop, hblack⟩ := h.finished hnone
    refine ⟨node :: order, .cons node order (fun b hb => ?_) htop, fun k => ?_⟩
    · rcases (h.pending hnone).1 b hb with hrest | hb | habove
      · exact nomatch hrest
      · exact (hblack b).mpr hb
      · exact nomatch habove
    · by_cases hk : k = node
      · subst hk
        simp [CycleSearch.step]
      · simp [CycleSearch.step, hk, hblack k]
  · intro hnone
    have hdone : Function.update colour node .black node = .black := Function.update_self ..
    refine Pending.finish hdone ?_
    refine Pending.mono (fun k hk => ?_) (h.pending hnone).2
    by_cases hnode : k = node
    · simp [hnode]
    · simpa [CycleSearch.step, hnode] using hk

/-- What is still to be looked at once a successor was taken off the stack. -/
theorem SearchOk.rest_mem
    (h : SearchOk g ⟨colour, path, depth, (node, successor :: rest) :: below, cycles, seen⟩) :
    ∀ entry ∈ (node, rest) :: below, ∀ b ∈ entry.2, b ∈ g.nodeKeys := by
  intro entry hentry
  rcases List.mem_cons.mp hentry with rfl | hentry
  · exact fun b hb => h.stack_mem _ List.mem_cons_self b (List.mem_cons_of_mem _ hb)
  · exact h.stack_mem entry (List.mem_cons_of_mem _ hentry)

/-- Descend: the successor is on the path, with all its own successors to look at. -/
theorem SearchOk.descend
    (h : SearchOk g ⟨colour, path, depth, (node, successor :: rest) :: below, cycles, seen⟩)
    (hcolour : colour successor = .white) :
    SearchOk g (CycleSearch.step g
      ⟨colour, path, depth, (node, successor :: rest) :: below, cycles, seen⟩) := by
  have hblack : ∀ k, Function.update colour successor .grey k = .black ↔ colour k = .black := by
    intro k
    by_cases hk : k = successor
    · subst hk
      simp [hcolour]
    · simp [hk]
  simp only [CycleSearch.step, hcolour]
  refine ⟨?_, ?_, h.reported, ?_, ?_⟩
  · intro entry hentry
    rcases List.mem_cons.mp hentry with rfl | hentry
    · exact fun b hb => (WorkflowGraph.feeds_mem (mem_successors.mp hb)).2
    · exact h.rest_mem entry hentry
  · intro k hk
    by_cases hne : k = successor
    · subst hne
      simp
    · have hgrey : colour k = .grey := by simpa [hne] using hk
      exact List.mem_cons_of_mem _ (h.grey_on_stack k hgrey)
  · intro hnone
    obtain ⟨order, htop, hiff⟩ := h.finished hnone
    exact ⟨order, htop, fun k => (hiff k).trans (hblack k).symm⟩
  · intro hnone
    have hpending := Pending.mono (fun k hk => (hblack k).mpr hk) (h.pending hnone)
    refine ⟨fun b hb => Or.inl (mem_successors.mpr hb), fun b hb => ?_, hpending.2⟩
    rcases hpending.1 b hb with hb | hb | habove
    · rcases List.mem_cons.mp hb with rfl | hb
      · exact Or.inr (Or.inr rfl)
      · exact Or.inl hb
    · exact Or.inr (Or.inl hb)
    · exact nomatch habove

end Step

/-- **A step keeps the invariant.** -/
theorem SearchOk.step (h : SearchOk g s) : SearchOk g (s.step g) := by
  obtain ⟨colour, path, depth, stack, cycles, seen⟩ := s
  rcases stack with _ | ⟨⟨node, _ | ⟨successor, rest⟩⟩, below⟩
  · exact h
  · exact h.finish
  cases hcolour : colour successor with
  | white => exact h.descend hcolour
  | grey =>
      -- A back edge: a cycle is reported, and nothing is promised from here on.
      simp only [CycleSearch.step, hcolour]
      have hreported : ∀ c ∈ seen, c ∈ cycles := h.reported
      refine ⟨?_, ?_, close_reported hreported successor,
        fun hnone => absurd hnone (close_cycles hreported successor),
        fun hnone => absurd hnone (close_cycles hreported successor)⟩
      · rw [close_stack]
        exact h.rest_mem
      · rw [close_stack, close_colour]
        exact h.grey_on_stack
  | black =>
      simp only [CycleSearch.step, hcolour]
      refine ⟨h.rest_mem, h.grey_on_stack, h.reported, h.finished,
        fun hnone => ⟨fun b hb => ?_, (h.pending hnone).2⟩⟩
      rcases (h.pending hnone).1 b hb with hb | hb | habove
      · rcases List.mem_cons.mp hb with rfl | hb
        · exact Or.inr (Or.inl hcolour)
        · exact Or.inl hb
      · exact Or.inr (Or.inl hb)
      · exact nomatch habove

/-! ### The steps are enough -/

/-- The steps a node not visited will take. -/
def toVisit (g : WorkflowGraph Value) (colour : NodeKey → Colour) (key : NodeKey) : Nat :=
  if colour key = .white then (successors g key).length + 1 else 0

/-- The steps a search has left: for each node not visited, for each entry of the stack. -/
def work (g : WorkflowGraph Value) (s : CycleSearch) : Nat :=
  (g.nodeKeys.map (toVisit g s.colour)).sum + (s.stack.map fun entry => entry.2.length + 1).sum

theorem toVisit_update_ne (colour : NodeKey → Colour) (c : Colour) {k : NodeKey} (h : k ≠ key) :
    toVisit g (Function.update colour key c) k = toVisit g colour k := by
  simp [toVisit, h]

theorem toVisit_of_ne {colour : NodeKey → Colour} (h : colour key ≠ .white) :
    toVisit g colour key = 0 :=
  if_neg h

theorem toVisit_of_white {colour : NodeKey → Colour} (h : colour key = .white) :
    toVisit g colour key = (successors g key).length + 1 :=
  if_pos h

theorem sum_toVisit_le {colour colour' : NodeKey → Colour}
    (h : ∀ k, toVisit g colour k ≤ toVisit g colour' k) :
    (g.nodeKeys.map (toVisit g colour)).sum ≤ (g.nodeKeys.map (toVisit g colour')).sum :=
  List.sum_le_sum fun k _ => h k

/-- Changing one summand of a sum over distinct elements. -/
theorem sum_update {keys : List NodeKey} (hnodup : keys.Nodup) (hkey : key ∈ keys)
    (f h : NodeKey → Nat) (hsame : ∀ k, k ≠ key → h k = f k) :
    (keys.map h).sum + f key = (keys.map f).sum + h key := by
  induction keys with
  | nil => exact nomatch hkey
  | cons k rest ih =>
      rw [List.nodup_cons] at hnodup
      simp only [List.map_cons, List.sum_cons]
      rcases List.mem_cons.mp hkey with rfl | hmem
      · have hrest : rest.map h = rest.map f :=
          List.map_congr_left fun j hj => hsame j fun hc => hnodup.1 (hc ▸ hj)
        rw [hrest]
        omega
      · have hne : k ≠ key := fun hc => hnodup.1 (hc ▸ hmem)
        have := ih hnodup.2 hmem
        rw [hsame k hne]
        omega

/-- **Each step uses up one.** -/
theorem SearchOk.work_step (h : SearchOk g s) (hne : s.stack ≠ []) :
    work g (s.step g) + 1 ≤ work g s := by
  obtain ⟨colour, path, depth, stack, cycles, seen⟩ := s
  rcases stack with _ | ⟨⟨node, _ | ⟨successor, rest⟩⟩, below⟩
  · exact absurd rfl hne
  · have hsum : (g.nodeKeys.map (toVisit g (Function.update colour node .black))).sum ≤
        (g.nodeKeys.map (toVisit g colour)).sum := by
      refine sum_toVisit_le fun k => ?_
      by_cases hk : k = node
      · subst hk
        rw [toVisit_of_ne (by simp)]
        exact Nat.zero_le _
      · rw [toVisit_update_ne colour .black hk]
    simp only [work, CycleSearch.step, List.map_cons, List.sum_cons, List.length_nil]
    omega
  · cases hcolour : colour successor with
    | white =>
        have hmem : successor ∈ g.nodeKeys :=
          h.stack_mem _ List.mem_cons_self successor List.mem_cons_self
        have hsum := sum_update g.nodeKeys_nodup hmem (toVisit g colour)
          (toVisit g (Function.update colour successor .grey))
          (fun k hk => toVisit_update_ne colour .grey hk)
        rw [toVisit_of_white hcolour, toVisit_of_ne (by simp)] at hsum
        simp only [work, CycleSearch.step, hcolour, List.map_cons, List.sum_cons, List.length_cons]
        omega
    | grey =>
        simp only [work, CycleSearch.step, hcolour, close_colour, close_stack, List.map_cons,
          List.sum_cons, List.length_cons]
        omega
    | black =>
        simp only [work, CycleSearch.step, hcolour, List.map_cons, List.sum_cons, List.length_cons]
        omega

/-- A step leaves visited what is visited. -/
theorem step_visited (hk : s.colour key ≠ .white) : (s.step g).colour key ≠ .white := by
  obtain ⟨colour, path, depth, stack, cycles, seen⟩ := s
  rcases stack with _ | ⟨⟨node, _ | ⟨successor, rest⟩⟩, below⟩
  · exact hk
  · by_cases hne : key = node
    · subst hne
      simp [CycleSearch.step]
    · simpa [CycleSearch.step, hne] using hk
  · cases hcolour : colour successor with
    | white =>
        by_cases hne : key = successor
        · subst hne
          simp [CycleSearch.step, hcolour]
        · simpa [CycleSearch.step, hcolour, hne] using hk
    | grey => simpa [CycleSearch.step, hcolour, close_colour] using hk
    | black => simpa [CycleSearch.step, hcolour] using hk

/-- **With enough steps the loop empties its stack**, and keeps the invariant. -/
theorem loop_spec {fuel : Nat} (h : SearchOk g s) (hfuel : work g s ≤ fuel) :
    SearchOk g (loop g fuel s) ∧ (loop g fuel s).stack = [] ∧
      ∀ k, s.colour k ≠ .white → (loop g fuel s).colour k ≠ .white := by
  induction fuel generalizing s with
  | zero =>
      refine ⟨h, ?_, fun _ hk => hk⟩
      by_contra hne
      have := h.work_step hne
      omega
  | succ fuel ih =>
      unfold loop
      by_cases hempty : s.stack = []
      · rw [if_pos (List.isEmpty_iff.mpr hempty)]
        exact ⟨h, hempty, fun _ hk => hk⟩
      · rw [if_neg (by simpa using hempty)]
        have hwork := h.work_step hempty
        obtain ⟨hok, hstack, hvisited⟩ := ih h.step (by omega)
        exact ⟨hok, hstack, fun k hk => hvisited k (step_visited hk)⟩

/-- What is left to visit is never more than all there is. -/
theorem work_start (start : NodeKey) (hstart : start ∈ g.nodeKeys)
    (hwhite : s.colour start = .white) :
    work g
        { s with
          colour := Function.update s.colour start .grey
          path := [start]
          depth := Function.update s.depth start 0
          stack := [(start, successors g start)] } ≤ workLeft g := by
  have hsum := sum_update g.nodeKeys_nodup hstart (toVisit g s.colour)
    (toVisit g (Function.update s.colour start .grey))
    (fun k hk => toVisit_update_ne s.colour .grey hk)
  have hle : (g.nodeKeys.map (toVisit g s.colour)).sum ≤ workLeft g := by
    refine List.sum_le_sum fun k _ => ?_
    unfold toVisit
    split <;> omega
  rw [toVisit_of_white hwhite, toVisit_of_ne (by simp)] at hsum
  simp only [work, List.map_cons, List.map_nil, List.sum_cons, List.sum_nil]
  omega

/-- A pass visits its start, and leaves no path open. -/
theorem visit_spec (h : SearchOk g s) (hstack : s.stack = []) {start : NodeKey}
    (hstart : start ∈ g.nodeKeys) :
    SearchOk g (visit g s start) ∧ (visit g s start).stack = [] ∧
      (visit g s start).colour start ≠ .white ∧
        ∀ k, s.colour k ≠ .white → (visit g s start).colour k ≠ .white := by
  by_cases hwhite : s.colour start = .white
  · unfold visit
    rw [if_neg (not_not.mpr hwhite)]
    have hgrey : ∀ k, s.colour k ≠ .white → Function.update s.colour start .grey k ≠ .white := by
      intro k hk
      by_cases hne : k = start
      · subst hne
        simp
      · simpa [hne] using hk
    have hblack : ∀ k, Function.update s.colour start .grey k = .black ↔ s.colour k = .black := by
      intro k
      by_cases hne : k = start
      · subst hne
        simp [hwhite]
      · simp [hne]
    have hopen : SearchOk g
        { s with
          colour := Function.update s.colour start .grey
          path := [start]
          depth := Function.update s.depth start 0
          stack := [(start, successors g start)] } := by
      refine ⟨?_, ?_, h.reported, fun hnone => ?_, fun _ => ⟨fun b hb => ?_, trivial⟩⟩
      · intro entry hentry b hb
        obtain rfl := List.mem_singleton.mp hentry
        exact (WorkflowGraph.feeds_mem (mem_successors.mp hb)).2
      · intro k hk
        by_cases hne : k = start
        · simp [hne]
        · have := h.grey_on_stack k (by simpa [hne] using hk)
          simp [hstack] at this
      · obtain ⟨order, htop, hiff⟩ := h.finished hnone
        exact ⟨order, htop, fun k => (hiff k).trans (hblack k).symm⟩
      · exact Or.inl (mem_successors.mpr hb)
    obtain ⟨hok, hempty, hvisited⟩ := loop_spec hopen (work_start start hstart hwhite)
    exact ⟨hok, hempty, hvisited start (by simp), fun k hk => hvisited k (hgrey k hk)⟩
  · unfold visit
    rw [if_pos hwhite]
    exact ⟨h, hstack, hwhite, fun _ hk => hk⟩

theorem visit_all {keys : List NodeKey} (h : SearchOk g s) (hstack : s.stack = [])
    (hkeys : ∀ k ∈ keys, k ∈ g.nodeKeys) :
    SearchOk g (keys.foldl (visit g) s) ∧ (keys.foldl (visit g) s).stack = [] ∧
      (∀ k, s.colour k ≠ .white → (keys.foldl (visit g) s).colour k ≠ .white) ∧
        ∀ k ∈ keys, (keys.foldl (visit g) s).colour k ≠ .white := by
  induction keys generalizing s with
  | nil => exact ⟨h, hstack, fun _ hk => hk, fun k hk => nomatch hk⟩
  | cons start rest ih =>
      obtain ⟨hok, hempty, hstart, hvisited⟩ := visit_spec h hstack (hkeys start List.mem_cons_self)
      obtain ⟨hok', hempty', hkeep, hrest⟩ :=
        ih hok hempty fun k hk => hkeys k (List.mem_cons_of_mem _ hk)
      refine ⟨hok', hempty', fun k hk => hkeep k (hvisited k hk), fun k hk => ?_⟩
      rcases List.mem_cons.mp hk with rfl | hk
      · exact hkeep k hstart
      · exact hrest k hk

end CycleSearch

/-- **A graph for which no cycle is reported has none.** -/
theorem findCycles_complete (h : findCycles g = []) : g.Acyclic := by
  obtain ⟨hok, hstack, -, hall⟩ :=
    CycleSearch.visit_all (CycleSearch.empty_ok g) rfl fun k (hk : k ∈ g.nodeKeys) => hk
  obtain ⟨order, htop, hiff⟩ := hok.finished h
  refine Digraph.acyclic_of_topological htop fun a b hab => (hiff a).mpr ?_
  have hvisited := hall a (WorkflowGraph.feeds_mem hab).1
  cases hcolour : (g.nodeKeys.foldl (CycleSearch.visit g) .empty).colour a with
  | white => exact absurd hcolour hvisited
  | grey =>
      have := hok.grey_on_stack a hcolour
      simp [hstack] at this
  | black => rfl

end Orqent
