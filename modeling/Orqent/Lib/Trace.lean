/-
Runs of a partial step function.

A system is given by `step : σ → α → Option σ`: the state after an action, or
`none` where the action is not enabled.  `run` performs a list of actions, so a
run is a value that can be computed, and the properties of runs are stated over
the list of what was done.

Two rules carry the inductions of this development.  `run_induction` is the
invariant rule, in the form that also remembers the actions so far.  `Along` and
`Visits` say that every action taken, and every state passed through, has a
property; they are what "in every run whose steps all meet the condition" means.
`Each` is the same of a record that grows at its end, where there are no states.
`collect` is the history of a run, for properties that count what has happened.
-/
import Mathlib.Data.List.Basic
import Mathlib.Data.List.Induction

namespace Orqent.Trace

variable {σ α : Type*} {step : σ → α → Option σ} {s₀ s s' : σ} {a : α} {tr : List α}

/-- The state after the actions of `tr`, or `none` where one is not enabled. -/
def run (step : σ → α → Option σ) (s : σ) (tr : List α) : Option σ :=
  tr.foldlM step s

@[simp] theorem run_nil : run step s [] = some s := rfl

theorem run_append (tr us : List α) :
    run step s (tr ++ us) = (run step s tr).bind fun t => run step t us := by
  unfold run
  rw [List.foldlM_append]
  rfl

theorem run_cons : run step s (a :: tr) = (step s a).bind fun t => run step t tr := rfl

theorem run_singleton : run step s [a] = step s a := by
  simp [run]

/-- The last action of a run starts where the rest of it ended. -/
theorem run_snoc_iff :
    run step s₀ (tr ++ [a]) = some s' ↔ ∃ s, run step s₀ tr = some s ∧ step s a = some s' := by
  rw [run_append, Option.bind_eq_some_iff]
  simp only [run_singleton]

theorem run_snoc (h : run step s₀ tr = some s) (ha : step s a = some s') :
    run step s₀ (tr ++ [a]) = some s' :=
  run_snoc_iff.mpr ⟨s, h, ha⟩

/--
**The invariant rule.**  What holds before anything happened, and is kept by every
action enabled in a state where it holds, holds after every run.
-/
theorem run_induction {P : List α → σ → Prop} (init : P [] s₀)
    (next : ∀ tr s a s', run step s₀ tr = some s → P tr s → step s a = some s' →
      P (tr ++ [a]) s') :
    ∀ {tr : List α} {s : σ}, run step s₀ tr = some s → P tr s := by
  intro tr
  induction tr using List.reverseRecOn with
  | nil =>
      intro s h
      rw [run_nil, Option.some.injEq] at h
      exact h ▸ init
  | append_singleton tr a ih =>
      intro s' h
      obtain ⟨s, hrun, hstep⟩ := run_snoc_iff.mp h
      exact next tr s a s' hrun (ih hrun) hstep

/-- The invariant rule where the actions so far do not matter. -/
theorem run_invariant {P : σ → Prop} (init : P s₀)
    (next : ∀ s a s', P s → step s a = some s' → P s') (h : run step s₀ tr = some s) : P s :=
  run_induction (P := fun _ s => P s) init (fun _ s a s' _ hs ha => next s a s' hs ha) h

/-- Every action of the run meets `C` in the state it is taken in. -/
def Along (step : σ → α → Option σ) (C : σ → α → Prop) (s₀ : σ) (tr : List α) : Prop :=
  ∀ before a after, tr = before ++ a :: after → ∀ s, run step s₀ before = some s → C s a

/-- Every state of the run, the first and the last included, has `P`. -/
def Visits (step : σ → α → Option σ) (P : σ → Prop) (s₀ : σ) (tr : List α) : Prop :=
  ∀ before after, tr = before ++ after → ∀ s, run step s₀ before = some s → P s

/-- Where the last of a list stands when the list is cut at some element. -/
theorem snoc_eq_append_cons {xs before after : List α} {x y : α}
    (h : xs ++ [x] = before ++ y :: after) :
    (xs = before ∧ x = y ∧ after = []) ∨
      ∃ rest, after = rest ++ [x] ∧ xs = before ++ y :: rest := by
  rcases List.eq_nil_or_concat after with rfl | ⟨rest, z, rfl⟩
  · obtain ⟨hxs, hlast⟩ := List.append_inj' h rfl
    exact Or.inl ⟨hxs, List.singleton_inj.mp hlast, rfl⟩
  · have h' : xs ++ [x] = (before ++ y :: rest) ++ [z] := by simpa using h
    obtain ⟨hxs, hlast⟩ := List.append_inj' h' rfl
    rw [List.singleton_inj.mp hlast]
    exact Or.inr ⟨rest, List.concat_eq_append, hxs⟩

/-- Every entry of a record has `P` after the entries before it. -/
def Each (P : List α → α → Prop) (record : List α) : Prop :=
  ∀ before a after, record = before ++ a :: after → P before a

theorem each_nil {P : List α → α → Prop} : Each P [] := by
  intro before a after h
  simp at h

/-- What is appended is to be looked at after all that was there. -/
theorem Each.snoc {P : List α → α → Prop} (h : Each P tr) (ha : P tr a) :
    Each P (tr ++ [a]) := by
  intro before b after hsplit
  rcases snoc_eq_append_cons hsplit with ⟨rfl, rfl, -⟩ | ⟨rest, -, hbefore⟩
  · exact ha
  · exact h before b rest hbefore

theorem along_nil {C : σ → α → Prop} : Along step C s₀ [] := by
  intro before a after h
  simp at h

theorem along_snoc {C : σ → α → Prop} (hrun : run step s₀ tr = some s) :
    Along step C s₀ (tr ++ [a]) ↔ Along step C s₀ tr ∧ C s a := by
  constructor
  · intro h
    refine ⟨?_, h tr a [] rfl s hrun⟩
    intro before b after hsplit t ht
    exact h before b (after ++ [a]) (by rw [hsplit]; simp) t ht
  · intro hboth before b after hsplit t ht
    obtain ⟨h, ha⟩ := hboth
    rcases snoc_eq_append_cons hsplit with ⟨rfl, rfl, -⟩ | ⟨rest, -, hbefore⟩
    · rw [hrun, Option.some.injEq] at ht
      exact ht ▸ ha
    · exact h before b rest hbefore t ht

theorem Along.imp {C D : σ → α → Prop} (hCD : ∀ s a, C s a → D s a) (h : Along step C s₀ tr) :
    Along step D s₀ tr :=
  fun before a after hsplit s hs => hCD s a (h before a after hsplit s hs)

/-- What is met along a run is met along its beginning. -/
theorem Along.of_append {C : σ → α → Prop} {us : List α} (h : Along step C s₀ (tr ++ us)) :
    Along step C s₀ tr := by
  intro before a after hsplit s hs
  subst hsplit
  exact h before a (after ++ us) (by simp) s hs

theorem along_cons {C : σ → α → Prop} :
    Along step C s (a :: tr) ↔ C s a ∧ ∀ s', step s a = some s' → Along step C s' tr := by
  constructor
  · intro h
    refine ⟨h [] a tr rfl s rfl, fun s' hs' before b after hsplit t ht => ?_⟩
    refine h (a :: before) b after (by rw [hsplit]; rfl) t ?_
    exact Option.bind_eq_some_iff.mpr ⟨s', hs', ht⟩
  · intro hboth before b after hsplit t ht
    obtain ⟨ha, hrest⟩ := hboth
    cases before with
    | nil =>
        obtain ⟨rfl, rfl⟩ := List.cons.inj hsplit
        obtain rfl := Option.some.inj ht
        exact ha
    | cons c before =>
        obtain ⟨rfl, rfl⟩ := List.cons.inj hsplit
        obtain ⟨s', hs', ht'⟩ := Option.bind_eq_some_iff.mp ht
        exact hrest s' hs' before b after rfl t ht'

/-- A condition that can be decided can be decided along a run. -/
instance decidableAlong {C : σ → α → Prop} [∀ s a, Decidable (C s a)] :
    ∀ (s : σ) (tr : List α), Decidable (Along step C s tr)
  | _, [] => isTrue along_nil
  | s, a :: tr =>
      match h : step s a with
      | none => decidable_of_iff (C s a) (by rw [along_cons]; simp [h])
      | some s' =>
          have := decidableAlong (C := C) s' tr
          decidable_of_iff (C s a ∧ Along step C s' tr) (by rw [along_cons]; simp [h])

theorem visits_nil {P : σ → Prop} : Visits step P s₀ [] ↔ P s₀ := by
  constructor
  · intro h
    exact h [] [] rfl s₀ rfl
  · intro h before after hsplit s hs
    obtain ⟨rfl, -⟩ := List.append_eq_nil_iff.mp hsplit.symm
    rw [run_nil, Option.some.injEq] at hs
    exact hs ▸ h

theorem visits_snoc {P : σ → Prop} (hrun : run step s₀ (tr ++ [a]) = some s') :
    Visits step P s₀ (tr ++ [a]) ↔ Visits step P s₀ tr ∧ P s' := by
  constructor
  · intro h
    refine ⟨?_, h (tr ++ [a]) [] (by simp) s' hrun⟩
    intro before after hsplit t ht
    exact h before (after ++ [a]) (by rw [hsplit]; simp) t ht
  · intro hboth before after hsplit t ht
    obtain ⟨h, hs'⟩ := hboth
    rcases List.eq_nil_or_concat after with rfl | ⟨rest, c, rfl⟩
    · rw [List.append_nil] at hsplit
      rw [← hsplit, hrun, Option.some.injEq] at ht
      exact ht ▸ hs'
    · have hsplit' : tr ++ [a] = (before ++ rest) ++ [c] := by rw [hsplit]; simp
      exact h before rest (List.append_inj' hsplit' rfl).1 t ht

theorem Visits.last {P : σ → Prop} (h : Visits step P s₀ tr) (hrun : run step s₀ tr = some s) :
    P s :=
  h tr [] (by simp) s hrun

/--
The invariant rule under a condition on the steps: in every run whose actions all
meet `C`, what `C` preserves holds in every state passed through.
-/
theorem run_induction_along {P : List α → σ → Prop} {C : σ → α → Prop} (init : P [] s₀)
    (next : ∀ tr s a s', run step s₀ tr = some s → P tr s → C s a → step s a = some s' →
      P (tr ++ [a]) s') :
    ∀ {tr : List α} {s : σ}, run step s₀ tr = some s → Along step C s₀ tr → P tr s := by
  intro tr
  induction tr using List.reverseRecOn with
  | nil =>
      intro s h _
      rw [run_nil, Option.some.injEq] at h
      exact h ▸ init
  | append_singleton tr a ih =>
      intro s' h hall
      obtain ⟨s, hrun, hstep⟩ := run_snoc_iff.mp h
      obtain ⟨hbefore, ha⟩ := (along_snoc hrun).mp hall
      exact next tr s a s' hrun (ih hrun hbefore) ha hstep

/--
What an invariant gives of the actions.  In every run whose actions all meet `C`, the
invariant that `C` preserves holds in the end, and every action has what it gives.
-/
theorem along_of_invariant {I : σ → Prop} {C D : σ → α → Prop} (init : I s₀)
    (gives : ∀ tr s a s', run step s₀ tr = some s → I s → C s a → step s a = some s' → D s a)
    (next : ∀ tr s a s', run step s₀ tr = some s → I s → C s a → step s a = some s' → I s')
    (h : run step s₀ tr = some s) (hall : Along step C s₀ tr) : I s ∧ Along step D s₀ tr := by
  refine run_induction_along (P := fun tr s => I s ∧ Along step D s₀ tr) ⟨init, along_nil⟩ ?_ h hall
  intro tr s a s' hrun hbefore ha hstep
  obtain ⟨hs, halong⟩ := hbefore
  have hgiven : D s a := gives tr s a s' hrun hs ha hstep
  exact ⟨next tr s a s' hrun hs ha hstep, (along_snoc hrun).mpr ⟨halong, hgiven⟩⟩

/--
The rule for a condition that is exact.  In the runs of a domain `D`, `I` is kept by the
actions that meet `C` and gives `Q`; and an action that leaves `Q` meets `C`.  Then the
runs that keep `Q` are those whose actions all meet `C`.
-/
theorem visits_iff_along {I Q : σ → Prop} {C D : σ → α → Prop} (init : I s₀)
    (good : ∀ s, I s → Q s)
    (next : ∀ tr s a s', run step s₀ tr = some s → I s → D s a → C s a → step s a = some s' → I s')
    (needs : ∀ tr s a s', run step s₀ tr = some s → I s → D s a → step s a = some s' → Q s' →
      C s a) :
    ∀ {tr : List α} {s : σ}, run step s₀ tr = some s → Along step D s₀ tr →
      (Visits step Q s₀ tr ↔ Along step C s₀ tr) := by
  have hkept : ∀ {tr : List α} {s : σ}, run step s₀ tr = some s → Along step D s₀ tr →
      Along step C s₀ tr → I s := by
    intro tr s hrun hdomain halong
    refine run_induction_along (P := fun _ s => I s) (C := fun s a => D s a ∧ C s a) init ?_ hrun ?_
    · intro tr s a s' hrun hs hboth hstep
      exact next tr s a s' hrun hs hboth.1 hboth.2 hstep
    · intro before a after hsplit t ht
      exact ⟨hdomain before a after hsplit t ht, halong before a after hsplit t ht⟩
  intro tr
  induction tr using List.reverseRecOn with
  | nil =>
      intro s h hdomain
      exact iff_of_true (visits_nil.mpr (good _ init)) along_nil
  | append_singleton tr a ih =>
      intro s' h hdomain
      obtain ⟨s, hrun, hstep⟩ := run_snoc_iff.mp h
      obtain ⟨hbefore, ha⟩ := (along_snoc hrun).mp hdomain
      rw [visits_snoc h, along_snoc hrun, ih hrun hbefore]
      refine and_congr_right fun halong => ?_
      have hs : I s := hkept hrun hbefore halong
      constructor
      · exact needs tr s a s' hrun hs ha hstep
      · intro hc
        exact good s' (next tr s a s' hrun hs ha hc hstep)

/-- What the steps of a run had to show, in order. -/
def collect {β : Type*} (step : σ → α → Option σ) (shows : σ → α → σ → List β) :
    σ → List α → List β
  | _, [] => []
  | s, a :: rest =>
      match step s a with
      | none => []
      | some s' => shows s a s' ++ collect step shows s' rest

/-- What a run shows is what its beginning shows, and then what the rest of it shows. -/
theorem collect_append {β : Type*} {shows : σ → α → σ → List β} (hrun : run step s₀ tr = some s)
    (us : List α) :
    collect step shows s₀ (tr ++ us) = collect step shows s₀ tr ++ collect step shows s us := by
  induction tr generalizing s₀ with
  | nil =>
      obtain rfl := Option.some.inj hrun
      rfl
  | cons b rest ih =>
      obtain ⟨t, hfirst, hrest⟩ := Option.bind_eq_some_iff.mp hrun
      simp only [List.cons_append, collect, hfirst]
      rw [ih hrest, List.append_assoc]

/-- One more step shows one more thing. -/
theorem collect_snoc {β : Type*} {shows : σ → α → σ → List β} (hrun : run step s₀ tr = some s)
    (hstep : step s a = some s') :
    collect step shows s₀ (tr ++ [a]) = collect step shows s₀ tr ++ shows s a s' := by
  rw [collect_append hrun]
  simp [collect, hstep]

/-- The steps, with what they have shown so far beside the state. -/
def noting {β : Type*} (step : σ → α → Option σ) (shows : σ → α → σ → List β) :
    σ × List β → α → Option (σ × List β)
  | (s, notes), a => (step s a).map fun s' => (s', notes ++ shows s a s')

/-- Taking notes changes no run. -/
theorem run_noting {β : Type*} {shows : σ → α → σ → List β} {notes : List β} {x : σ × List β}
    (h : run (noting step shows) (s, notes) tr = some x) : run step s tr = some x.1 := by
  induction tr generalizing s notes with
  | nil =>
      obtain rfl := Option.some.inj h
      rfl
  | cons a rest ih =>
      obtain ⟨y, hfirst, hrest⟩ := Option.bind_eq_some_iff.mp h
      obtain ⟨s', hstep, rfl⟩ := Option.map_eq_some_iff.mp hfirst
      exact Option.bind_eq_some_iff.mpr ⟨s', hstep, ih hrest⟩

end Orqent.Trace
