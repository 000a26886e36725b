/-
What a run has started, and what it has invoked.

`Ledger` relates the notes of a run to its state.  A node's attempt counts its
recoveries; every start is one attempt of one node; and what was launched, by a start
or a resume, is either still in the hands of one process or was invoked, so no launch
is invoked twice (`balance`, over any finite set of processes).  The refusal to repeat
an `AT_MOST_ONCE` node leaves it the first attempt only.
-/
import Orqent.Runtime.Launches
import Orqent.Runtime.Parking
import Mathlib.Algebra.Order.BigOperators.Group.Finset

namespace Orqent

open Scheduler

variable {P Value : Type} {env : Env Value} {s s' : Sys P Value} {p q : P} {a : Action Value}
  {now : Time} {key : NodeKey} {notes : List Note}

/-! ### Reading the notes -/

namespace Note

/-- The node and attempt of a start from `PENDING`. -/
def start : Note → Option (NodeKey × Nat)
  | launched ⟨key, attempt, none⟩ => some (key, attempt)
  | _ => none

/-- The idempotency key of a start. -/
def startKey (env : Env Value) (note : Note) : Option String :=
  note.start.map fun e => idempotencyKey env.runId (env.workflowNodeId e.1) e.2

/-- The runner of this node was called with this token. -/
def invokedWith (key : NodeKey) (token : Option String) : Note → Bool
  | invoked l => l.key = key && l.token = token
  | _ => false

/-- This token was consumed by a resume of this node. -/
def consumed (key : NodeKey) (token : String) : Note → Bool
  | launched l => l.key = key && l.token = some token
  | _ => false

end Note

/-- How many launches equal to this one a process has not invoked. -/
def Phase.waiting (phase : Phase Value) (l : Launch) : Nat :=
  phase.launched.countP fun e => e.1 = l && e.2.isNone

/-- What the notes say about the state. -/
structure Ledger (env : Env Value) (notes : List Note) (s : Sys P Value) : Prop where
  attempts : ∀ key ∈ env.graph.nodeKeys,
    (s.rows.executions key).attempt = 1 + notes.count (.recovered key)
  launched : ∀ l, .launched l ∈ notes → l.key ∈ env.graph.nodeKeys ∧ 1 ≤ l.attempt
  started : ∀ key attempt, (key, attempt) ∈ notes.filterMap Note.start →
    (s.rows.executions key).status ≠ .pending ∧ attempt ≤ (s.rows.executions key).attempt
  starts : (notes.filterMap Note.start).Nodup
  /-- What was launched is in the hands of a process, or was invoked. -/
  balance : ∀ (l : Launch) (S : Finset P),
    notes.count (.invoked l) + ∑ p ∈ S, (s.procs p).phase.waiting l ≤ notes.count (.launched l)
  guarded : ∀ l, .invoked l ∈ notes → repeatWouldBeUnsafe env l.key l.attempt = .ok false

/-! ### What one step adds -/

theorem guarded_of_runs {snap : RunRows Value} {l : Launch} (h : runs env snap l = true) :
    repeatWouldBeUnsafe env l.key l.attempt = .ok false := by
  unfold runs at h
  rw [invocation] at h
  cases hguard : repeatWouldBeUnsafe env l.key l.attempt with
  | error e => rw [hguard] at h; exact nomatch h
  | ok refused =>
      cases refused with
      | false => rfl
      | true => rw [hguard] at h; exact nomatch h

/-- A batch just launched waits for exactly its launches. -/
theorem waiting_of_started {cycles : Nat} {snap : RunRows Value}
    (batch : List (Launch × Option (Outcome Value))) (hnone : ∀ e ∈ batch, e.2 = none)
    (l : Launch) : (Phase.invoking cycles snap batch).waiting l =
      (batch.map fun e => Note.launched e.1).count (.launched l) := by
  show batch.countP _ = _
  rw [List.count, List.countP_map]
  refine List.countP_congr fun e he => ?_
  simp [hnone e he]

/-- Two disjoint kinds of entries, both of a third. -/
theorem countP_add_le {α : Type} {b c d : α → Bool} (xs : List α)
    (h : ∀ e ∈ xs, (b e = true → d e = true ∧ c e = false) ∧ (c e = true → d e = true)) :
    xs.countP b + xs.countP c ≤ xs.countP d := by
  induction xs with
  | nil => simp
  | cons e rest ih =>
      have hrest := ih fun f hf => h f (List.mem_cons_of_mem _ hf)
      obtain ⟨hb, hc⟩ := h e List.mem_cons_self
      simp only [List.countP_cons]
      cases hbe : b e <;> cases hce : c e <;> cases hde : d e <;> simp_all <;> omega

/-- Invoking takes from those waiting at least what it calls. -/
theorem waiting_of_invoked {cycles : Nat} {snap : RunRows Value} (outcome : RunnerOutcome Value)
    (batch : List (Launch × Option (Outcome Value))) (l : Launch) :
    ((batch.filter fun e => e.1.key = key && e.2.isNone && runs env snap e.1).map
        fun e => Note.invoked e.1).count (.invoked l) +
      (Phase.invoking cycles snap (invokeIn env snap key outcome batch)).waiting l
      ≤ (Phase.invoking cycles snap batch).waiting l := by
  show _ + (invokeIn env snap key outcome batch).countP _ ≤ batch.countP _
  rw [List.count, List.countP_map, List.countP_filter, invokeIn, List.countP_map]
  refine countP_add_le batch fun e _ => ?_
  rcases e with ⟨l', _ | o⟩
  · simp only [Function.comp_apply, invokeEntry, beq_iff_eq, Note.invoked.injEq, Bool.and_eq_true,
      decide_eq_true_eq, Option.isNone_none, and_true]
    by_cases hkey : l'.key = key
    · simp only [hkey, if_true]
      simp only [Option.isNone_some, Bool.and_false]
      exact ⟨fun h => ⟨h.1, trivial⟩, fun h => absurd h.2 (by simp)⟩
    · simp [hkey]
  · simp [invokeEntry]

section Steps

variable [DecidableEq P] [DecidableEq Value]

set_option linter.unusedSectionVars false

/-! ### The notes of one step -/

theorem noted_invoke {outcome : RunnerOutcome Value} {cycles : Nat} {snap : RunRows Value}
    {batch : List (Launch × Option (Outcome Value))}
    (hphase : (s.procs p).phase = .invoking cycles snap batch) :
    noted env s (p, .invoke key outcome) s' =
      (batch.filter fun e => e.1.key = key && e.2.isNone && runs env snap e.1).map
        fun e => .invoked e.1 := by
  unfold noted
  simp only [hphase]

theorem noted_tick {cycles : Nat} (hphase : (s.procs p).phase = .ticking cycles s.rows)
    (hphase' : (s'.procs p).phase = .invoking (cycles + 1) s.rows
      ((readyKeys (snapshot env.graph s.rows)).map fun k =>
        (⟨k, (s'.rows.executions k).attempt, none⟩, none))) :
    noted env s (p, .commitTick now) s' =
      (strandedKeys (snapshot env.graph s.rows)).map .recovered ++
        (readyKeys (snapshot env.graph s.rows)).map fun k =>
          .launched ⟨k, (s'.rows.executions k).attempt, none⟩ := by
  unfold noted
  simp only [hphase, hphase', List.map_map]
  rfl

theorem noted_resumed {token : String} {l : Launch}
    (hphase : (s.procs p).phase = .resuming token s.rows)
    (hphase' : (s'.procs p).phase = .invoking 0 s.rows [(l, none)]) :
    noted env s (p, .commitResume now) s' = [.launched l] := by
  unfold noted
  simp only [hphase, hphase']
  rfl

theorem count_map_ne {α : Type} {f : α → Note} {note : Note} (h : ∀ x, f x ≠ note) (xs : List α) :
    (xs.map f).count note = 0 := by
  refine List.count_eq_zero.mpr fun hc => ?_
  obtain ⟨x, -, hx⟩ := List.mem_map.mp hc
  exact h x hx

/-- **What a step invokes was waiting, and what comes to wait was launched.** -/
theorem Handover.flow (h : Handover env s p a s') (l : Launch) :
    (noted env s (p, a) s').count (.invoked l) + (s'.procs p).phase.waiting l ≤
      (s.procs p).phase.waiting l + (noted env s (p, a) s').count (.launched l) := by
  cases h with
  | keep a s' hrows hquiet hlaunched =>
      rw [hquiet, List.count_nil, List.count_nil, Nat.zero_add, Nat.add_zero]
      exact hlaunched.countP_le
  | invoke key outcome s' cycles snap batch hphase hopen hrows hphase' =>
      rw [noted_invoke hphase, hphase, hphase']
      exact (waiting_of_invoked outcome batch l).trans (Nat.le_add_right _ _)
  | settle now rejected s' l' outcome result hlaunched hrecorded hrunning hrows =>
      show 0 + _ ≤ _ + 0
      rw [Nat.zero_add, Nat.add_zero, Phase.waiting, Phase.waiting, hlaunched]
      exact (List.sublist_cons_self _ _).countP_le
  | tick now s' cycles ops hphase hlimit hphase' heffect =>
      have hwaiting : (s'.procs p).phase.waiting l =
          ((readyKeys (snapshot env.graph s.rows)).map fun k =>
            Note.launched ⟨k, (s'.rows.executions k).attempt, none⟩).count (.launched l) := by
        rw [hphase', waiting_of_started, List.map_map]
        · rfl
        · intro e he
          obtain ⟨k, -, rfl⟩ := List.mem_map.mp he
          rfl
      have hcalls : (noted env s (p, .commitTick now) s').count (.invoked l) = 0 := by
        rw [noted_tick hphase hphase', List.count_append, count_map_ne nofun, count_map_ne nofun]
      rw [hcalls, hwaiting, noted_tick hphase hphase', List.count_append]
      omega
  | resumed now s' token key hphase hphase' hfind hwaiting hsuspended hrows =>
      rw [noted_resumed hphase hphase', hphase', waiting_of_started _ (by simp)]
      simp

/-- **Only a recovery changes an attempt, and by one.** -/
theorem Handover.attempts (h : Handover env s p a s') (hok : RunOk env.graph s.rows)
    (hkey : key ∈ env.graph.nodeKeys) :
    (s'.rows.executions key).attempt =
      (s.rows.executions key).attempt + (noted env s (p, a) s').count (.recovered key) := by
  cases h with
  | keep a s' hrows hquiet hlaunched =>
      rw [hrows, hquiet]
      rfl
  | invoke key' outcome s' cycles snap batch hphase hopen hrows hphase' =>
      rw [hrows, noted_invoke hphase, count_map_ne nofun, Nat.add_zero]
  | settle now rejected s' l outcome result hlaunched hrecorded hrunning hrows =>
      show _ = _ + 0
      rw [hrows, RunRows.append_executions]
      by_cases hk : key = l.key
      · rw [hk, RunRows.write_self]
        cases result <;> rfl
      · rw [RunRows.write_ne _ _ hk]
        rfl
  | tick now s' cycles ops hphase hlimit hphase' heffect =>
      have hcount : ((strandedKeys (snapshot env.graph s.rows)).map Note.recovered).count
          (.recovered key) = if (s.rows.executions key).status = .running then 1 else 0 := by
        rw [List.count_map_of_injective _ _ (fun _ _ => Note.recovered.inj)]
        have hnodup : (strandedKeys (snapshot env.graph s.rows)).Nodup :=
          env.graph.keys_nodup.filter _
        split
        · rename_i hrunning
          exact List.count_eq_one_of_mem hnodup (mem_stranded.mpr ⟨hkey, hrunning⟩)
        · rename_i hrunning
          exact List.count_eq_zero.mpr fun hc => hrunning (mem_stranded.mp hc).2
      rw [noted_tick hphase hphase', List.count_append, hcount, count_map_ne nofun, Nat.add_zero,
        heffect.tick_executions]
      rcases hok.ticked_cases now hkey with
        ⟨hrunning, -, hrow⟩ | ⟨hpending, -, hrow⟩ | ⟨hpending, -, hrow⟩ | ⟨hrunning, -, -, hrow⟩ <;>
        rw [hrow]
      · rw [if_pos hrunning]
        rfl
      · rw [if_neg (by simp [hpending])]
        rfl
      · rw [if_neg (by simp [hpending])]
        rfl
      · rw [if_neg hrunning]
        rfl
  | resumed now s' token key' hphase hphase' hfind hwaiting hsuspended hrows =>
      rw [hrows, noted_resumed hphase hphase']
      show _ = _ + 0
      by_cases hk : key = key'
      · rw [hk, resumed_self]
        rfl
      · rw [resumed_ne hk]
        rfl

/-- What a step starts: what the tick it applies found ready, and nothing else. -/
theorem Handover.starts (h : Handover env s p a s') :
    (noted env s (p, a) s').filterMap Note.start = [] ∨
      ∃ now ops, Effect env.graph s.rows (.tick now) s'.rows ops ∧
        (noted env s (p, a) s').filterMap Note.start =
          (readyKeys (snapshot env.graph s.rows)).map fun k =>
            (k, (s'.rows.executions k).attempt) := by
  have hnone : ∀ {α : Type} (f : α → Note) (xs : List α), (∀ x, (f x).start = none) →
      (xs.map f).filterMap Note.start = [] := by
    intro α f xs hf
    rw [List.filterMap_map, List.filterMap_eq_nil_iff]
    exact fun x _ => hf x
  cases h with
  | keep a s' hrows hquiet hlaunched => exact Or.inl (by rw [hquiet]; rfl)
  | invoke key outcome s' cycles snap batch hphase hopen hrows hphase' =>
      refine Or.inl ?_
      rw [noted_invoke hphase]
      exact hnone _ _ fun _ => rfl
  | settle now rejected s' l outcome result hlaunched hrecorded hrunning hrows => exact Or.inl rfl
  | tick now s' cycles ops hphase hlimit hphase' heffect =>
      refine Or.inr ⟨now, ops, heffect, ?_⟩
      rw [noted_tick hphase hphase', List.filterMap_append, hnone _ _ (fun _ => rfl),
        List.nil_append,
        List.filterMap_map, ← List.filterMap_eq_map]
      rfl
  | resumed now s' token key hphase hphase' hfind hwaiting hsuspended hrows =>
      refine Or.inl ?_
      rw [noted_resumed hphase hphase']
      rfl

/-- A node that has left `PENDING` does not return. -/
theorem Move.not_pending (h : Move env s p a s') (hok : RunOk env.graph s.rows)
    (hkey : key ∈ env.graph.nodeKeys) (hst : (s.rows.executions key).status ≠ .pending) :
    (s'.rows.executions key).status ≠ .pending := by
  rcases h.rows_effect with hrows | ⟨t, queue, he⟩
  · rw [hrows]
    exact hst
  · have hmove := hok.move he hkey
    generalize s'.rows.executions key = x at hmove
    cases hmove with
    | same => exact hst
    | start now hpending hsatisfied => exact absurd hpending hst
    | recover now hrunning hsatisfied => exact nofun
    | prune now hpending hdead => exact nofun
    | settle now result hrunning => cases result <;> exact nofun
    | resume now hwaiting => exact nofun

/-- Only what the moving process holds changes, so the balance is kept for any processes. -/
theorem Ledger.balance_step (h : Ledger env notes s) (hmove : Move env s p a s') (l : Launch)
    (S : Finset P) :
    (notes ++ noted env s (p, a) s').count (.invoked l) + ∑ q ∈ S, (s'.procs q).phase.waiting l ≤
      (notes ++ noted env s (p, a) s').count (.launched l) := by
  have hflow := hmove.handover.flow l
  have hbefore := h.balance l (insert p (S.erase p))
  rw [Finset.sum_insert (Finset.notMem_erase p S)] at hbefore
  have hrest : ∑ q ∈ S.erase p, (s'.procs q).phase.waiting l
      = ∑ q ∈ S.erase p, (s.procs q).phase.waiting l := by
    refine Finset.sum_congr rfl fun q hq => ?_
    rw [hmove.procs_ne (Finset.ne_of_mem_erase hq)]
  have hafter : ∑ q ∈ S, (s'.procs q).phase.waiting l ≤ (s'.procs p).phase.waiting l +
      ∑ q ∈ S.erase p, (s.procs q).phase.waiting l := by
    have hinsert := Finset.sum_insert (f := fun q => (s'.procs q).phase.waiting l)
      (Finset.notMem_erase p S)
    rw [← hrest, ← hinsert]
    refine Finset.sum_le_sum_of_subset fun q hq => ?_
    by_cases hqp : q = p
    · rw [hqp]
      exact Finset.mem_insert_self _ _
    · exact Finset.mem_insert_of_mem (Finset.mem_erase.mpr ⟨hqp, hq⟩)
  rw [List.count_append, List.count_append]
  omega

/-- What is launched is a node of the graph, at its attempt. -/
theorem Handover.launched (h : Handover env s p a s') {l : Launch}
    (hl : .launched l ∈ noted env s (p, a) s') :
    l.key ∈ env.graph.nodeKeys ∧ l.attempt = (s'.rows.executions l.key).attempt := by
  cases h with
  | keep a s' hrows hquiet hlaunched =>
      rw [hquiet] at hl
      exact nomatch hl
  | invoke key outcome s' cycles snap batch hphase hopen hrows hphase' =>
      rw [noted_invoke hphase] at hl
      obtain ⟨e, -, he⟩ := List.mem_map.mp hl
      exact nomatch he
  | settle now rejected s' l' outcome result hlaunched hrecorded hrunning hrows => exact nomatch hl
  | tick now s' cycles ops hphase hlimit hphase' heffect =>
      rw [noted_tick hphase hphase'] at hl
      rcases List.mem_append.mp hl with hl | hl
      · obtain ⟨k, -, hk⟩ := List.mem_map.mp hl
        exact nomatch hk
      · obtain ⟨k, hk, hkl⟩ := List.mem_map.mp hl
        obtain rfl := Note.launched.inj hkl
        exact ⟨(mem_ready.mp hk).1, rfl⟩
  | resumed now s' token key hphase hphase' hfind hwaiting hsuspended hrows =>
      rw [noted_resumed hphase hphase'] at hl
      obtain rfl := Note.launched.inj (List.mem_singleton.mp hl)
      refine ⟨(waitingNode_mem hfind).1, ?_⟩
      rw [hrows, resumed_self]

/-- A runner is called only where the node may be repeated. -/
theorem Handover.guarded (h : Handover env s p a s') {l : Launch}
    (hl : .invoked l ∈ noted env s (p, a) s') :
    repeatWouldBeUnsafe env l.key l.attempt = .ok false := by
  cases h with
  | keep a s' hrows hquiet hlaunched =>
      rw [hquiet] at hl
      exact nomatch hl
  | invoke key outcome s' cycles snap batch hphase hopen hrows hphase' =>
      rw [noted_invoke hphase] at hl
      obtain ⟨e, he, hel⟩ := List.mem_map.mp hl
      obtain rfl := Note.invoked.inj hel
      have hkept := (List.mem_filter.mp he).2
      rw [Bool.and_eq_true] at hkept
      exact guarded_of_runs hkept.2
  | settle now rejected s' l' outcome result hlaunched hrecorded hrunning hrows => exact nomatch hl
  | tick now s' cycles ops hphase hlimit hphase' heffect =>
      rw [noted_tick hphase hphase'] at hl
      rcases List.mem_append.mp hl with hl | hl <;> obtain ⟨k, -, hk⟩ := List.mem_map.mp hl <;>
        exact nomatch hk
  | resumed now s' token key hphase hphase' hfind hwaiting hsuspended hrows =>
      rw [noted_resumed hphase hphase'] at hl
      exact nomatch List.mem_singleton.mp hl

/-- A start is of an attempt that was not started before. -/
theorem Ledger.fresh_start (h : Ledger env notes s) (hattempts : ∀ k ∈ env.graph.nodeKeys,
      (s'.rows.executions k).attempt = (s.rows.executions k).attempt +
        if (s.rows.executions k).status = .running then 1 else 0)
    (hready : key ∈ readyKeys (snapshot env.graph s.rows)) :
    (key, (s'.rows.executions key).attempt) ∉ notes.filterMap Note.start := by
  intro hc
  obtain ⟨hmem, hst, -⟩ := mem_ready.mp hready
  obtain ⟨hne, hle⟩ := h.started key _ hc
  rcases hst with hrunning | hpending
  · rw [hattempts key hmem, if_pos hrunning] at hle
    omega
  · exact hne hpending

/-- **The ledger is kept by every step.** -/
theorem Ledger.step (h : Ledger env notes s) (hok : SysOk env s) (hmove : Move env s p a s') :
    Ledger env (notes ++ noted env s (p, a) s') s' := by
  have hhand := hmove.handover
  have hattempts : ∀ k ∈ env.graph.nodeKeys, (s'.rows.executions k).attempt =
      1 + (notes ++ noted env s (p, a) s').count (.recovered k) := by
    intro k hk
    rw [hhand.attempts hok.rows hk, h.attempts k hk, List.count_append, Nat.add_assoc]
  have hmono : ∀ k ∈ env.graph.nodeKeys,
      (s.rows.executions k).attempt ≤ (s'.rows.executions k).attempt := by
    intro k hk
    rw [hhand.attempts hok.rows hk]
    exact Nat.le_add_right _ _
  have hmem : ∀ k n, (k, n) ∈ notes.filterMap Note.start → k ∈ env.graph.nodeKeys := by
    intro k n hkn
    obtain ⟨note, hnote, hstart⟩ := List.mem_filterMap.mp hkn
    cases note with
    | launched l =>
        obtain ⟨key, attempt, _ | token⟩ := l
        · obtain ⟨rfl, rfl⟩ := Prod.mk.inj (Option.some.inj hstart)
          exact (h.launched _ hnote).1
        · exact nomatch hstart
    | recovered key => exact nomatch hstart
    | invoked l => exact nomatch hstart
  refine ⟨hattempts, ?_, ?_, ?_, h.balance_step hmove, ?_⟩
  · intro l hl
    rcases List.mem_append.mp hl with hl | hl
    · exact h.launched l hl
    · obtain ⟨hk, hattempt⟩ := hhand.launched hl
      refine ⟨hk, ?_⟩
      rw [hattempt, hattempts _ hk]
      exact Nat.le_add_right _ _
  · intro k n hkn
    rw [List.filterMap_append] at hkn
    rcases List.mem_append.mp hkn with hold | hnew
    · obtain ⟨hne, hle⟩ := h.started k n hold
      have hk := hmem k n hold
      exact ⟨hmove.not_pending hok.rows hk hne, hle.trans (hmono k hk)⟩
    · rcases hhand.starts with hnone | ⟨now, ops, heffect, hsome⟩
      · rw [hnone] at hnew
        exact nomatch hnew
      · rw [hsome] at hnew
        obtain ⟨k', hk', heq⟩ := List.mem_map.mp hnew
        obtain ⟨rfl, rfl⟩ := Prod.mk.inj heq
        refine ⟨?_, le_rfl⟩
        rw [heffect.tick_executions, ticked_ready _ hk']
        exact nofun
  · rw [List.filterMap_append]
    rcases hhand.starts with hnone | ⟨now, ops, heffect, hsome⟩
    · rw [hnone, List.append_nil]
      exact h.starts
    · rw [hsome]
      refine List.Nodup.append h.starts ?_ ?_
      · have hnodup : (readyKeys (snapshot env.graph s.rows)).Nodup :=
          env.graph.keys_nodup.filter _
        exact hnodup.map fun _ _ heq => (Prod.mk.inj heq).1
      · intro e hold hnew
        obtain ⟨k, hk, rfl⟩ := List.mem_map.mp hnew
        refine h.fresh_start (fun j hj => ?_) hk hold
        rw [heffect.tick_executions]
        rcases hok.rows.ticked_cases now hj with
          ⟨hst, -, hrow⟩ | ⟨hst, -, hrow⟩ | ⟨hst, -, hrow⟩ | ⟨hst, -, -, hrow⟩ <;> rw [hrow] <;>
          simp [hst, NodeExecution.started, NodeExecution.recovered, NodeExecution.skipped]
  · intro l hl
    rcases List.mem_append.mp hl with hl | hl
    · exact h.guarded l hl
    · exact hhand.guarded hl

theorem start_ledger (env : Env Value) (now : Time) : Ledger env [] (Sys.start P env now) where
  attempts := fun _ _ => rfl
  launched := fun _ h => nomatch h
  started := fun _ _ h => nomatch h
  starts := List.nodup_nil
  balance := by
    intro l S
    have hzero : ∑ p ∈ S, ((Sys.start P env now).procs p).phase.waiting l = 0 :=
      Finset.sum_eq_zero fun _ _ => rfl
    rw [hzero]
    rfl
  guarded := fun _ h => nomatch h

/-- The notes of a run, from its creation. -/
def history (P : Type) [DecidableEq P] (env : Env Value) (now : Time)
    (tr : List (P × Action Value)) : List Note :=
  Trace.collect (Sys.step env) (noted env) (Sys.start P env now) tr

theorem history_ledger {tr : List (P × Action Value)}
    (h : Trace.run (Sys.step env) (Sys.start P env now) tr = some s) :
    Ledger env (history P env now tr) s := by
  refine Trace.run_induction (P := fun tr s => Ledger env (history P env now tr) s)
    (start_ledger env now) ?_ h
  intro tr s step s' hrun ih hstep
  obtain ⟨p, a⟩ := step
  have hok : SysOk env s := sys_ok hrun
  unfold history
  rw [Trace.collect_snoc hrun hstep]
  exact ih.step hok (hok.step_move hstep)

/-! ### At most once -/

/-- Only a tick changes an attempt: suspension and resume leave it. -/
theorem Handover.attempt_kept (h : Handover env s p a s') (hok : RunOk env.graph s.rows)
    (hkey : key ∈ env.graph.nodeKeys) (hnot : ∀ now, a ≠ .commitTick now) :
    (s'.rows.executions key).attempt = (s.rows.executions key).attempt := by
  have hcount : (noted env s (p, a) s').count (.recovered key) = 0 := by
    cases h with
    | keep a s' hrows hquiet hlaunched => rw [hquiet, List.count_nil]
    | invoke key outcome s' cycles snap batch hphase hopen hrows hphase' =>
        rw [noted_invoke hphase, count_map_ne nofun]
    | settle now rejected s' l outcome result hlaunched hrecorded hrunning hrows => rfl
    | tick now s' cycles ops hphase hlimit hphase' heffect => exact absurd rfl (hnot now)
    | resumed now s' token key hphase hphase' hfind hwaiting hsuspended hrows =>
        rw [noted_resumed hphase hphase']
        rfl
  rw [h.attempts hok hkey, hcount, Nat.add_zero]

/-- The starts carry different idempotency keys. -/
theorem Ledger.startKeys (h : Ledger env notes s) :
    (notes.filterMap (Note.startKey env)).Nodup := by
  have hmap : notes.filterMap (Note.startKey env) = (notes.filterMap Note.start).map
      fun e => idempotencyKey env.runId (env.workflowNodeId e.1) e.2 := by
    rw [List.map_filterMap]
    rfl
  rw [hmap]
  refine h.starts.map_on ?_
  have hmem : ∀ e ∈ notes.filterMap Note.start, e.1 ∈ env.graph.nodeKeys := by
    intro e he
    obtain ⟨note, hnote, hstart⟩ := List.mem_filterMap.mp he
    cases note with
    | launched l =>
        obtain ⟨key, attempt, _ | token⟩ := l
        · obtain rfl := Option.some.inj hstart
          exact (h.launched _ hnote).1
        · exact nomatch hstart
    | recovered key => exact nomatch hstart
    | invoked l => exact nomatch hstart
  intro first hk second hj heq
  obtain ⟨k, n⟩ := first
  obtain ⟨j, m⟩ := second
  obtain ⟨hid, rfl⟩ := idempotencyKey_inj heq
  rw [env.workflowNodeId_inj k (hmem _ hk) j (hmem _ hj) hid]

/-- Only the first attempt of an `AT_MOST_ONCE` node is invoked. -/
theorem Ledger.first_attempt (h : Ledger env notes s) {node : GraphNode Value}
    {d : NodeDescriptor Value} (hnode : env.graph.node key = some node)
    (hget : env.registry.get node.nodeType node.version = .ok d)
    (honce : d.sideEffect = .atMostOnce) {l : Launch} (hl : .invoked l ∈ notes)
    (hkey : l.key = key) : l.attempt = 1 := by
  have hlaunched : .launched l ∈ notes := by
    have hbalance := h.balance l ∅
    have hcalls := List.count_pos_iff.mpr hl
    rw [Finset.sum_empty] at hbalance
    exact List.count_pos_iff.mp (by omega)
  have hle : l.attempt ≤ 1 := by
    by_contra hgt
    have hguard := h.guarded l hl
    unfold repeatWouldBeUnsafe at hguard
    rw [if_neg hgt, hkey, hnode] at hguard
    dsimp only at hguard
    rw [hget] at hguard
    have htrue := Except.ok.inj hguard
    rw [honce] at htrue
    exact nomatch htrue
  exact Nat.le_antisymm hle (h.launched l hlaunched).2

/-- Its invocations with one token are those of one launch. -/
theorem Ledger.invoked_eq (h : Ledger env notes s) {node : GraphNode Value}
    {d : NodeDescriptor Value} (hnode : env.graph.node key = some node)
    (hget : env.registry.get node.nodeType node.version = .ok d)
    (honce : d.sideEffect = .atMostOnce) (token : Option String) :
    notes.countP (Note.invokedWith key token) ≤ notes.count (.launched ⟨key, 1, token⟩) := by
  have hcalls : notes.countP (Note.invokedWith key token)
      = notes.count (.invoked ⟨key, 1, token⟩) := by
    refine List.countP_congr fun note hnote => ?_
    cases note with
    | invoked l =>
        simp only [Note.invokedWith, Bool.and_eq_true, decide_eq_true_eq, beq_iff_eq,
          Note.invoked.injEq]
        constructor
        · intro hc
          obtain ⟨hkey, rfl⟩ := hc
          obtain ⟨k, n, t⟩ := l
          obtain rfl : n = 1 := h.first_attempt hnode hget honce hnote hkey
          obtain rfl : k = key := hkey
          rfl
        · intro heq
          subst heq
          exact ⟨rfl, rfl⟩
    | recovered key => simp [Note.invokedWith]
    | launched l => simp [Note.invokedWith]
  have hbalance := h.balance ⟨key, 1, token⟩ ∅
  rw [Finset.sum_empty, Nat.add_zero] at hbalance
  exact hcalls ▸ hbalance

/--
**Idempotency keys and `AT_MOST_ONCE` are honoured**, in every run of the system.  No two
committed starts carry the same key; a node's attempt counts its committed recoveries, and
no other step changes it; and the runner of an `AT_MOST_ONCE` node is called at most once
without a token, and with a token at most as often as a resume consumed it.
-/
theorem keys_and_at_most_once {tr : List (P × Action Value)}
    (h : Trace.run (Sys.step env) (Sys.start P env now) tr = some s) :
    ((history P env now tr).filterMap (Note.startKey env)).Nodup ∧
    (∀ key ∈ env.graph.nodeKeys, (s.rows.executions key).attempt =
      1 + (history P env now tr).count (.recovered key)) ∧
    Trace.Along (Sys.step env)
      (fun s a => (∀ now, a.2 ≠ .commitTick now) → ∀ s', s.step env a = some s' →
        ∀ key ∈ env.graph.nodeKeys,
          (s'.rows.executions key).attempt = (s.rows.executions key).attempt)
      (Sys.start P env now) tr ∧
    ∀ key node d, env.graph.node key = some node →
      env.registry.get node.nodeType node.version = .ok d → d.sideEffect = .atMostOnce →
        (history P env now tr).countP (Note.invokedWith key none) ≤ 1 ∧
        ∀ token, (history P env now tr).countP (Note.invokedWith key (some token)) ≤
          (history P env now tr).countP (Note.consumed key token) := by
  have hledger := history_ledger h
  refine ⟨hledger.startKeys, hledger.attempts, ?_, ?_⟩
  · intro before step after _ t hrun hnot t' hstep key hkey
    obtain ⟨p, a⟩ := step
    have hok : SysOk env t := sys_ok hrun
    exact (hok.step_move hstep).handover.attempt_kept hok.rows hkey hnot
  · intro key node d hnode hget honce
    constructor
    · refine (hledger.invoked_eq hnode hget honce none).trans ?_
      have hcount : (history P env now tr).count (.launched ⟨key, 1, none⟩) ≤
          ((history P env now tr).filterMap Note.start).count (key, 1) := by
        rw [List.count_filterMap, List.count]
        refine List.countP_mono_left fun note _ hnote => ?_
        rw [beq_iff_eq] at hnote
        rw [hnote]
        exact beq_self_eq_true _
      exact hcount.trans (List.nodup_iff_count_le_one.mp hledger.starts _)
    · intro token
      refine (hledger.invoked_eq hnode hget honce (some token)).trans ?_
      refine List.countP_mono_left fun note _ hnote => ?_
      rw [beq_iff_eq] at hnote
      rw [hnote]
      simp [Note.consumed]

end Steps

/-! ### A node that must not be repeated -/

/-- The running example where every node is `AT_MOST_ONCE`. -/
def onceEnv : Env Unit :=
  { rejoinEnv with
    registry :=
      ⟨fun nodeType version => (rejoinRegistry.find nodeType version).map
        fun d => { d with sideEffect := .atMostOnce }⟩ }

/-- The worker calls `other` and dies; the next advance recovers it and is refused. -/
def onceDrive : List (Bool × Action Unit) :=
  ([Action.claim 0 10 []] ++ cycle [("trigger", .returned (.completed [("main", ())]))] ++
      [Action.beginTick, .commitTick 0, .invoke "other" (.returned (.completed [])),
        .crash]).map (true, ·) ++
    ([Action.advance] ++ cycle [("condition", .returned (.completed [])),
        ("other", .returned (.completed []))]).map (false, ·)

/-- `other` is started twice and called once. -/
theorem other_called_once : ∃ s,
    Trace.run (Sys.step onceEnv) (Sys.start Bool onceEnv 0) onceDrive = some s ∧
      (s.rows.executions "other").attempt =
        1 + (history Bool onceEnv 0 onceDrive).count (.recovered "other") ∧
      (s.rows.executions "other").attempt = 2 ∧
      (history Bool onceEnv 0 onceDrive).countP (Note.invokedWith "other" none) ≤ 1 := by
  have heval : (Trace.run (Sys.step onceEnv) (Sys.start Bool onceEnv 0) onceDrive).map
      (fun s => (s.rows.executions "other").attempt) = some 2 := by
    decide +kernel
  obtain ⟨s, hrun, hattempt⟩ := Option.map_eq_some_iff.mp heval
  obtain ⟨-, hattempts, -, honce⟩ := keys_and_at_most_once hrun
  exact ⟨s, hrun, hattempts "other" (by decide), hattempt, (honce "other" _ _ rfl rfl rfl).1⟩

end Orqent
