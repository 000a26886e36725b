/-
What the cycle search reports is a cycle.

The nodes on the stack are the path, read upwards; they are the grey ones, each at the
place `depth` gives for it, and each feeds the one after it.  So a back edge from the top
closes the stretch of the path from its target onwards, and rotating that stretch to its
smallest key makes two reports of one cycle equal.

Every edge is looked at once, and closes at most one cycle (`unseen`).
-/
import Orqent.Graph.Cycles
import Orqent.Lib.ClosedWalk

namespace Orqent

variable {Value : Type} {g : WorkflowGraph Value} {s : CycleSearch}

/-! ### Rotating to the smallest key -/

section Normalise

variable {c d : List NodeKey} {key : NodeKey}

theorem smallest_foldl (rest : List NodeKey) (key : NodeKey) :
    rest.foldl (fun least k => if k < least then k else least) key ∈ key :: rest ∧
      ∀ k ∈ key :: rest, rest.foldl (fun least k => if k < least then k else least) key ≤ k := by
  induction rest generalizing key with
  | nil => simp
  | cons next rest ih =>
      rw [List.foldl_cons]
      obtain ⟨hmem, hle⟩ := ih (if next < key then next else key)
      have hfirst := hle _ List.mem_cons_self
      refine ⟨?_, fun k hk => ?_⟩
      · rcases List.mem_cons.mp hmem with heq | hrest
        · rw [heq]
          split <;> simp
        · exact List.mem_cons_of_mem _ (List.mem_cons_of_mem _ hrest)
      · have hboth : (if next < key then next else key) ≤ key ∧
            (if next < key then next else key) ≤ next := by
          split
          · rename_i hlt
            exact ⟨le_of_lt hlt, le_refl _⟩
          · rename_i hlt
            exact ⟨le_refl _, not_lt.mp hlt⟩
        rcases List.mem_cons.mp hk with rfl | hk
        · exact le_trans hfirst hboth.1
        · rcases List.mem_cons.mp hk with rfl | hk
          · exact le_trans hfirst hboth.2
          · exact hle k (List.mem_cons_of_mem _ hk)

theorem smallest_spec (h : c ≠ []) : smallest c ∈ c ∧ ∀ k ∈ c, smallest c ≤ k := by
  obtain ⟨key, rest, rfl⟩ := List.exists_cons_of_ne_nil h
  exact smallest_foldl rest key

/-- The smallest key does not depend on where a cycle begins. -/
theorem smallest_rotated (hrot : c.IsRotated d) (h : c ≠ []) : smallest c = smallest d := by
  have hd : d ≠ [] := by
    intro hnil
    rw [hnil] at hrot
    exact h (List.isRotated_nil_iff.mp hrot)
  obtain ⟨hmem, hle⟩ := smallest_spec h
  obtain ⟨hmem', hle'⟩ := smallest_spec hd
  exact le_antisymm (hle _ (hrot.perm.mem_iff.mpr hmem')) (hle' _ (hrot.perm.mem_iff.mp hmem))

theorem normalise_rotated : c.IsRotated (normalise c) := by
  refine ⟨c.idxOf (smallest c), ?_⟩
  exact List.rotate_eq_drop_append_take (List.idxOf_le_length ..)

theorem normalise_head (h : c ≠ []) : (normalise c).head? = some (smallest (normalise c)) := by
  obtain ⟨hmem, -⟩ := smallest_spec h
  have hlt := List.idxOf_lt_length_of_mem hmem
  rw [← smallest_rotated normalise_rotated h]
  unfold normalise
  dsimp only
  rw [List.head?_append_of_ne_nil _ (by simpa using hlt), List.head?_drop,
    List.getElem?_eq_getElem hlt, List.getElem_idxOf]

end Normalise

namespace CycleSearch

/-! ### The shapes of a step -/

/-- The pass over the next successor is done. -/
def pass (s : CycleSearch) (node : NodeKey) (rest : List NodeKey)
    (below : List (NodeKey × List NodeKey)) : CycleSearch :=
  { s with stack := (node, rest) :: below }

/-- The node on top is finished. -/
def finish (s : CycleSearch) (node : NodeKey) (below : List (NodeKey × List NodeKey)) :
    CycleSearch :=
  { s with
    colour := Function.update s.colour node .black
    path := s.path.dropLast
    stack := below }

/-- A node not visited yet is put on top. -/
def descend (g : WorkflowGraph Value) (s : CycleSearch) (successor : NodeKey) : CycleSearch :=
  { s with
    colour := Function.update s.colour successor .grey
    depth := Function.update s.depth successor s.path.length
    path := s.path ++ [successor]
    stack := (successor, successors g successor) :: s.stack }

/-- The outer loop opens a path. -/
def start (g : WorkflowGraph Value) (s : CycleSearch) (key : NodeKey) : CycleSearch :=
  { s with
    colour := Function.update s.colour key .grey
    path := [key]
    depth := Function.update s.depth key 0
    stack := [(key, successors g key)] }

/-- **What a step can be.** -/
theorem step_cases (g : WorkflowGraph Value) (s : CycleSearch) :
    s.step g = s ∨
    (∃ node below, s.stack = (node, []) :: below ∧ s.step g = s.finish node below) ∨
    ∃ node successor rest below, s.stack = (node, successor :: rest) :: below ∧
      ((s.colour successor = .white ∧ s.step g = (s.pass node rest below).descend g successor) ∨
        (s.colour successor = .grey ∧ s.step g = (s.pass node rest below).close successor) ∨
        (s.colour successor = .black ∧ s.step g = s.pass node rest below)) := by
  obtain ⟨colour, path, depth, stack, cycles, seen⟩ := s
  rcases stack with _ | ⟨⟨node, _ | ⟨successor, rest⟩⟩, below⟩
  · exact Or.inl rfl
  · exact Or.inr (Or.inl ⟨node, below, rfl, rfl⟩)
  · refine Or.inr (Or.inr ⟨node, successor, rest, below, rfl, ?_⟩)
    cases hcolour : colour successor with
    | white => exact Or.inl ⟨hcolour, by simp [step, hcolour, pass, descend]⟩
    | grey => exact Or.inr (Or.inl ⟨hcolour, by simp [step, hcolour, pass]⟩)
    | black => exact Or.inr (Or.inr ⟨hcolour, by simp [step, hcolour, pass]⟩)

/-- **What every step keeps, and the opening of every path, holds after the search.** -/
theorem visit_rule {I : CycleSearch → Prop} (hstep : ∀ s, I s → I (s.step g))
    (hstart : ∀ s key, I s → s.stack = [] → key ∈ g.nodeKeys → s.colour key = .white →
      I (s.start g key))
    {keys : List NodeKey} (hkeys : ∀ k ∈ keys, k ∈ g.nodeKeys) (hok : SearchOk g s)
    (hstack : s.stack = []) (h : I s) : I (keys.foldl (visit g) s) := by
  have hloop : ∀ fuel s, I s → I (loop g fuel s) := by
    intro fuel
    induction fuel with
    | zero => exact fun s h => h
    | succ fuel ih =>
        intro s h
        unfold loop
        split
        · exact h
        · exact ih _ (hstep s h)
  induction keys generalizing s with
  | nil => exact h
  | cons key rest ih =>
      have hkey := hkeys key List.mem_cons_self
      obtain ⟨hok', hempty, -, -⟩ := visit_spec hok hstack hkey
      refine ih (fun k hk => hkeys k (List.mem_cons_of_mem _ hk)) hok' hempty ?_
      unfold visit
      split
      · exact h
      · rename_i hwhite
        exact hloop _ _ (hstart s key h hstack hkey (not_not.mp hwhite))

/-! ### The path -/

/-- What ties stack, path, depth and colours together. -/
structure PathOk (g : WorkflowGraph Value) (s : CycleSearch) : Prop where
  path_eq : s.path = (s.stack.map Prod.fst).reverse
  nodup : s.path.Nodup
  grey : ∀ k, s.colour k = .grey ↔ k ∈ s.path
  depth : ∀ i k, s.path[i]? = some k → s.depth k = i
  chain : List.IsChain g.Feeds s.path
  rest : ∀ entry ∈ s.stack, ∀ b ∈ entry.2, g.Feeds entry.1 b

theorem PathOk.pass (h : PathOk g s) {node successor : NodeKey} {rest : List NodeKey}
    {below : List (NodeKey × List NodeKey)}
    (hstack : s.stack = (node, successor :: rest) :: below) :
    PathOk g (s.pass node rest below) := by
  refine ⟨?_, h.nodup, h.grey, h.depth, h.chain, ?_⟩
  · have hpath := h.path_eq
    rw [hstack] at hpath
    exact hpath
  · intro entry hentry b hb
    have hrest := h.rest
    rw [hstack] at hrest
    rcases List.mem_cons.mp hentry with rfl | hentry
    · exact hrest _ List.mem_cons_self b (List.mem_cons_of_mem _ hb)
    · exact hrest entry (List.mem_cons_of_mem _ hentry) b hb

theorem PathOk.finish (h : PathOk g s) {node : NodeKey} {rest : List NodeKey}
    {below : List (NodeKey × List NodeKey)} (hstack : s.stack = (node, rest) :: below) :
    PathOk g (s.finish node below) := by
  have hpath : s.path = (below.map Prod.fst).reverse ++ [node] := by
    rw [h.path_eq, hstack]
    simp
  have hshort : s.path.dropLast = (below.map Prod.fst).reverse := by
    rw [hpath, List.dropLast_concat]
  have hnodup := h.nodup
  rw [hpath, List.nodup_append] at hnodup
  refine ⟨hshort, ?_, fun k => ?_, fun i k hk => ?_, ?_, fun entry hentry => ?_⟩
  · show s.path.dropLast.Nodup
    rw [hshort]
    exact hnodup.1
  · show Function.update s.colour node .black k = .grey ↔ k ∈ s.path.dropLast
    rw [hshort]
    by_cases hk : k = node
    · subst hk
      simp only [Function.update_self, reduceCtorEq, false_iff]
      intro hmem
      exact hnodup.2.2 k hmem k (by simp) rfl
    · rw [Function.update_of_ne hk, h.grey, hpath]
      simp [hk]
  · refine h.depth i k ?_
    have hlt : i < s.path.dropLast.length := (List.getElem?_eq_some_iff.mp hk).1
    rw [← hk]
    show s.path[i]? = s.path.dropLast[i]?
    rw [List.getElem?_dropLast, if_pos (by simpa using hlt)]
  · exact h.chain.prefix (List.dropLast_prefix s.path)
  · refine h.rest entry ?_
    rw [hstack]
    exact List.mem_cons_of_mem _ hentry

theorem PathOk.descend (h : PathOk g s) {node successor : NodeKey} {rest : List NodeKey}
    {below : List (NodeKey × List NodeKey)} (hstack : s.stack = (node, rest) :: below)
    (hwhite : s.colour successor = .white) (hfeeds : g.Feeds node successor) :
    PathOk g (s.descend g successor) := by
  have hnot : successor ∉ s.path := by
    intro hmem
    rw [(h.grey successor).mpr hmem] at hwhite
    simp at hwhite
  refine ⟨?_, ?_, fun k => ?_, fun i k hk => ?_, ?_, fun entry hentry b hb => ?_⟩
  · show s.path ++ [successor] = _
    rw [h.path_eq]
    simp [CycleSearch.descend]
  · exact List.nodup_append.mpr ⟨h.nodup, by simp, by
      intro a ha b hb hab
      rw [hab, List.mem_singleton.mp hb] at ha
      exact hnot ha⟩
  · show Function.update s.colour successor .grey k = .grey ↔ k ∈ s.path ++ [successor]
    by_cases hk : k = successor
    · subst hk
      simp
    · rw [Function.update_of_ne hk, h.grey]
      simp [hk]
  · have hk' : (s.path ++ [successor])[i]? = some k := hk
    show Function.update s.depth successor s.path.length k = i
    rcases Nat.lt_trichotomy i s.path.length with hlt | rfl | hgt
    · rw [List.getElem?_append_left hlt] at hk'
      have hne : k ≠ successor := by
        intro heq
        exact hnot (heq ▸ List.mem_of_getElem? hk')
      rw [Function.update_of_ne hne]
      exact h.depth i k hk'
    · rw [List.getElem?_append_right (Nat.le_refl _)] at hk'
      obtain rfl : successor = k := by simpa using hk'
      rw [Function.update_self]
    · have hlt := (List.getElem?_eq_some_iff.mp hk').1
      simp at hlt
      omega
  · refine List.isChain_append.mpr ⟨h.chain, by simp, fun a ha b hb => ?_⟩
    rw [h.path_eq, hstack] at ha
    obtain rfl : node = a := by simpa using ha
    obtain rfl : successor = b := by simpa using hb
    exact hfeeds
  · rcases List.mem_cons.mp hentry with rfl | hentry
    · exact mem_successors.mp hb
    · exact h.rest entry hentry b hb

/-- The cycle a back edge closes: its elements, and that the edge itself is one of its pairs. -/
theorem PathOk.closes (h : PathOk g s) {node successor : NodeKey} {rest : List NodeKey}
    {below : List (NodeKey × List NodeKey)} (hstack : s.stack = (node, rest) :: below)
    (hgrey : s.colour successor = .grey) (hfeeds : g.Feeds node successor) :
    ClosedWalk.IsClosed g.Feeds (s.path.drop (s.depth successor)) ∧
      (s.path.drop (s.depth successor)).Nodup ∧
      (node, successor) ∈ ClosedWalk.pairs (s.path.drop (s.depth successor)) := by
  obtain ⟨i, hi⟩ := List.mem_iff_getElem?.mp ((h.grey successor).mp hgrey)
  rw [h.depth i successor hi]
  obtain ⟨hlt, hget⟩ := List.getElem?_eq_some_iff.mp hi
  have hcons : s.path.drop i = successor :: s.path.drop (i + 1) := by
    rw [List.drop_eq_getElem_cons hlt, hget]
  have hlast : (s.path.drop i).getLast? = some node := by
    rw [List.getLast?_drop, if_neg (by omega), h.path_eq, hstack]
    simp
  have hchain : List.IsChain g.Feeds (s.path.drop i) := h.chain.suffix (List.drop_suffix ..)
  refine ⟨?_, h.nodup.sublist (List.drop_sublist ..), ?_⟩
  · rw [hcons] at hchain hlast ⊢
    rw [ClosedWalk.isClosed_cons, ← List.cons_append]
    refine List.isChain_append.mpr ⟨hchain, by simp, fun a ha b hb => ?_⟩
    rw [hlast] at ha
    obtain rfl : node = a := by simpa using ha
    obtain rfl : successor = b := by simpa using hb
    exact hfeeds
  · rw [hcons] at hlast ⊢
    exact ClosedWalk.closing_mem hlast

/-! ### The reports -/

/-- What has been reported: genuine simple cycles, none of them twice. -/
structure ReportsOk (g : WorkflowGraph Value) (s : CycleSearch) : Prop where
  seen : ∀ c, c ∈ s.seen ↔ c ∈ s.cycles
  genuine : ∀ c ∈ s.cycles,
    ClosedWalk.IsClosed g.Feeds c ∧ c.Nodup ∧ c.head? = some (smallest c)
  distinct : s.cycles.Nodup

theorem close_eq (h : ReportsOk g s) (successor : NodeKey) :
    let cycle := normalise (s.path.drop (s.depth successor))
    ((s.close successor).cycles = s.cycles ∧ cycle ∈ s.cycles ∨
      (s.close successor).cycles = s.cycles ++ [cycle] ∧ cycle ∉ s.cycles) := by
  intro cycle
  have hseen := h.seen cycle
  unfold close
  by_cases hmem : cycle ∈ s.seen
  · exact Or.inl ⟨by rw [if_pos hmem], hseen.mp hmem⟩
  · exact Or.inr ⟨by rw [if_neg hmem], fun hc => hmem (hseen.mpr hc)⟩

theorem close_mem (h : ReportsOk g s) (successor : NodeKey) :
    normalise (s.path.drop (s.depth successor)) ∈ (s.close successor).cycles := by
  rcases close_eq h successor with ⟨hsame, hmem⟩ | ⟨hnew, -⟩
  · rw [hsame]
    exact hmem
  · rw [hnew]
    simp

/-- **Closing a cycle reports a genuine one**, and none twice. -/
theorem ReportsOk.close (h : ReportsOk g s) {successor : NodeKey}
    (hclosed : ClosedWalk.IsClosed g.Feeds (s.path.drop (s.depth successor)))
    (hnodup : (s.path.drop (s.depth successor)).Nodup) : ReportsOk g (s.close successor) := by
  have hrot : (s.path.drop (s.depth successor)).IsRotated
      (normalise (s.path.drop (s.depth successor))) := normalise_rotated
  refine ⟨fun c => ?_, fun c hc => ?_, ?_⟩
  · have hseen := h.seen c
    unfold CycleSearch.close
    dsimp only
    split
    · exact hseen
    · simp [hseen, or_comm]
  · rcases close_eq h successor with ⟨hsame, -⟩ | ⟨hnew, -⟩
    · rw [hsame] at hc
      exact h.genuine c hc
    · rw [hnew] at hc
      rcases List.mem_append.mp hc with hc | hc
      · exact h.genuine c hc
      · rw [List.mem_singleton.mp hc]
        exact ⟨hclosed.rotated hrot, hrot.nodup_iff.mp hnodup, normalise_head hclosed.1⟩
  · rcases close_eq h successor with ⟨hsame, -⟩ | ⟨hnew, hnot⟩
    · rw [hsame]
      exact h.distinct
    · rw [hnew]
      refine List.nodup_append.mpr ⟨h.distinct, by simp, fun a ha b hb hab => ?_⟩
      rw [hab, List.mem_singleton.mp hb] at ha
      exact hnot ha

/-- No two of the reported cycles are rotations of each other. -/
theorem ReportsOk.not_rotated (h : ReportsOk g s) :
    s.cycles.Pairwise fun c d => ¬ c.IsRotated d := by
  refine h.distinct.imp_of_mem fun {c d} hc hd hne hrot => ?_
  obtain ⟨hclosed, hnodup, hhead⟩ := h.genuine c hc
  obtain ⟨-, -, hhead'⟩ := h.genuine d hd
  refine hne (ClosedWalk.eq_of_isRotated hnodup hrot ?_)
  rw [hhead, hhead', smallest_rotated hrot hclosed.1]

/-! ### One report for each edge at most -/

/-- The edges that a node not visited has to look at. -/
def toSee (g : WorkflowGraph Value) (colour : NodeKey → Colour) (key : NodeKey) : Nat :=
  if colour key = .white then (successors g key).length else 0

/-- The edges that are still to be looked at. -/
def unseen (g : WorkflowGraph Value) (s : CycleSearch) : Nat :=
  (g.nodeKeys.map (toSee g s.colour)).sum + (s.stack.map fun entry => entry.2.length).sum

theorem toSee_visited {colour : NodeKey → Colour} {key : NodeKey} (hkey : key ∈ g.nodeKeys)
    (hwhite : colour key = .white) :
    (g.nodeKeys.map (toSee g (Function.update colour key .grey))).sum + (successors g key).length =
      (g.nodeKeys.map (toSee g colour)).sum := by
  have hsum := sum_update g.nodeKeys_nodup hkey (toSee g colour)
    (toSee g (Function.update colour key .grey)) (fun k hk => by simp [toSee, hk])
  have hbefore : toSee g colour key = (successors g key).length := if_pos hwhite
  have hafter : toSee g (Function.update colour key .grey) key = 0 := by simp [toSee]
  omega

/-- Each node has no more successors than edges, and each edge leaves one node. -/
theorem sum_successors_le :
    (g.nodeKeys.map fun k => (successors g k).length).sum ≤ g.edges.length := by
  have hone : ∀ k, (successors g k).length ≤ g.edges.countP fun e => e.sourceKey = k := by
    intro k
    unfold successors
    rw [List.length_reverse, List.countP_eq_length_filter]
    refine Nat.le_trans (List.dedup_sublist _).length_le ?_
    simp [WorkflowGraph.outgoing]
  have hcount : ∀ edges : List GraphEdge, ∀ keys : List NodeKey, keys.Nodup →
      (keys.map fun k => edges.countP fun e => e.sourceKey = k).sum ≤ edges.length := by
    intro edges keys hkeys
    induction edges with
    | nil => simp
    | cons e rest ih =>
        have hsplit : (keys.map fun k => (e :: rest).countP fun e => e.sourceKey = k).sum =
            (keys.map fun k => rest.countP fun e => e.sourceKey = k).sum +
              keys.count e.sourceKey := by
          clear ih hkeys
          induction keys with
          | nil => simp
          | cons k keys ih =>
              rw [List.map_cons, List.sum_cons, ih, List.countP_cons, List.count_cons,
                List.map_cons,
                List.sum_cons]
              by_cases hk : e.sourceKey = k
              · simp [hk]
                omega
              · have hk' : ¬ k = e.sourceKey := fun hc => hk hc.symm
                simp [hk, hk']
                omega
        have hle : keys.count e.sourceKey ≤ 1 := List.nodup_iff_count_le_one.mp hkeys _
        rw [hsplit, List.length_cons]
        omega
  exact Nat.le_trans (List.sum_le_sum fun k _ => hone k) (hcount g.edges _ g.nodeKeys_nodup)

end CycleSearch

end Orqent
