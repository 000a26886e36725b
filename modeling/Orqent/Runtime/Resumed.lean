/-
What becomes of an accepted resume.

The commit that accepts a resume clears the token on the row, and from then on only
the launch in the hands of the resuming process carries it.  If that process dies, the
node is `RUNNING` like any other; the next tick recovers it, and what a tick launches
carries no token.

The notes say which token a node was resumed with and when a result of it was recorded;
`pendingToken` is the token it should still be invoked with.  `Forgets` are the steps
that leave a node, or an invocation of it still to come, without that token.
-/
import Orqent.Runtime.Stale

namespace Orqent

open Scheduler

variable {P Value : Type} {env : Env Value} {s s' : Sys P Value} {p q : P} {a : Action Value}
  {now : Time} {key : NodeKey} {token : String}

/-! ### The node that waits -/

/-- `core.wait`: suspends on the first call, completes on the resumed one. -/
def coreWait (newPublicId : String) (context : NodeRunContext Value) : NodeResult Value :=
  match context.resumeToken with
  | none => .suspended newPublicId (some "Waiting to be resumed.")
  | some _ =>
      match context.inputs.get? "main" with
      | some value => .completed [("main", value)]
      | none => .completed []

/-! ### What is noted -/

/-- What is noted of tokens and results. -/
inductive ResumeNote
  /-- A resume of this node was committed, with this token. -/
  | consumed (key : NodeKey) (token : String)
  /-- A result of this node was committed. -/
  | recorded (key : NodeKey)
deriving DecidableEq, Repr

/-- What a step has to say about resumes. -/
def resumeNotes (s : Sys P Value) (a : P × Action Value) (s' : Sys P Value) : List ResumeNote :=
  match a.2, (s.procs a.1).phase, (s'.procs a.1).phase with
  | .commitResume _, .resuming token _, .invoking _ _ batch =>
      batch.map fun e => .consumed e.1.key token
  | .commitSettle _ _, .recording _ _ l _ _ _, .settling _ _ _ => [.recorded l.key]
  | _, _, _ => []

/-- What a note leaves of the token a node was resumed with. -/
def ResumeNote.pending (key : NodeKey) (held : Option String) : ResumeNote → Option String
  | consumed k token => if k = key then some token else held
  | recorded k => if k = key then none else held

/-- The token this node was resumed with, until a result of it is recorded. -/
def pendingToken (notes : List ResumeNote) (key : NodeKey) : Option String :=
  notes.foldl (ResumeNote.pending key) none

theorem pendingToken_consumed {notes : List ResumeNote} {k : NodeKey} :
    pendingToken (notes ++ [.consumed k token]) key =
      if k = key then some token else pendingToken notes key := by
  unfold pendingToken
  rw [List.foldl_append]
  rfl

theorem pendingToken_recorded {notes : List ResumeNote} {k : NodeKey} :
    pendingToken (notes ++ [.recorded k]) key =
      if k = key then none else pendingToken notes key := by
  unfold pendingToken
  rw [List.foldl_append]
  rfl

/-! ### The property and the condition -/

/-- The calls of runners a process has still to make, and what it will give them. -/
def Phase.calls (env : Env Value) : Phase Value → List (Launch × NodeRunContext Value)
  | .invoking _ snap batch =>
      batch.filterMap fun e =>
        match e.2, invocation env snap e.1 with
        | none, .ok (some context) => some (e.1, context)
        | _, _ => none
  | _ => []

/-- The runner of a resumed node is called with the token it was resumed with. -/
def Carries (env : Env Value) (x : Sys P Value × List ResumeNote) : P × Action Value → Prop
  | (p, .invoke key _) =>
      ∀ call ∈ (x.1.procs p).phase.calls env, call.1.key = key →
        ∀ token, pendingToken x.2 key = some token → call.2.resumeToken = some token
  | _ => True

/-- The runner may be called again after this many attempts, or the attempt raises. -/
def Repeats (env : Env Value) (key : NodeKey) (attempt : Nat) : Prop :=
  repeatWouldBeUnsafe env key attempt ≠ .ok true

/--
The action recovers a node that was resumed and has no result yet, or accepts a resume of
a node that some process is still to invoke with another token or none.  Where the node
must not be repeated, it is not invoked again and nothing is forgotten.
-/
def Forgets (env : Env Value) (x : Sys P Value × List ResumeNote) : P × Action Value → Prop
  | (p, .commitTick _) =>
      (∃ cycles < env.graph.length + 1, (x.1.procs p).phase = .ticking cycles x.1.rows) ∧
        ∃ key ∈ env.graph.nodeKeys, (x.1.rows.executions key).status = .running ∧
          (pendingToken x.2 key).isSome = true ∧
          Repeats env key ((x.1.rows.executions key).attempt + 1)
  | (p, .commitResume _) =>
      ∃ token key, (x.1.procs p).phase = .resuming token x.1.rows ∧
        waitingNode env.graph x.1.rows token = some key ∧
        ∃ q l, (l, none) ∈ (x.1.procs q).phase.launched ∧ l.key = key ∧ l.token ≠ some token ∧
          Repeats env key l.attempt
  | _ => False

/-- What the token of a resumed node rests on. -/
structure ResumeOk (env : Env Value) (notes : List ResumeNote) (s : Sys P Value) : Prop where
  running : ∀ key token, pendingToken notes key = some token →
    key ∈ env.graph.nodeKeys ∧ (s.rows.executions key).status = .running
  /-- Whoever is still to invoke it has the token, or will not call the runner. -/
  carried : ∀ p l token, (l, none) ∈ (s.procs p).phase.launched →
    pendingToken notes l.key = some token →
      l.token = some token ∨ ¬ Repeats env l.key l.attempt

/-- The context of an invocation has the token of the launch, and no refused launch has one. -/
theorem invocation_token {snap : RunRows Value} {l : Launch} {context : NodeRunContext Value}
    (h : invocation env snap l = .ok (some context)) :
    context.resumeToken = l.token ∧ Repeats env l.key l.attempt := by
  obtain ⟨hguard, hbuild⟩ := invocation_inv h
  obtain ⟨node, d, -, -, -, rfl⟩ := buildContext_inv hbuild
  refine ⟨rfl, fun hc => ?_⟩
  rw [hguard] at hc
  cases hc

/-- A call still to be made is that of a launch in a batch. -/
theorem mem_calls {phase : Phase Value} {call : Launch × NodeRunContext Value}
    (h : call ∈ phase.calls env) : ∃ cycles snap batch, phase = .invoking cycles snap batch ∧
      (call.1, none) ∈ batch ∧ invocation env snap call.1 = .ok (some call.2) := by
  unfold Phase.calls at h
  split at h
  · rename_i cycles snap batch
    obtain ⟨⟨l, known⟩, he, hcall⟩ := List.mem_filterMap.mp h
    dsimp only at hcall
    split at hcall
    · rename_i context hcontext
      obtain rfl := Option.some.inj hcall
      exact ⟨cycles, snap, batch, rfl, he, hcontext⟩
    · cases hcall
  · cases h

section Steps

variable [DecidableEq P] [DecidableEq Value] {notes : List ResumeNote}

set_option linter.unusedSectionVars false

/-! ### What a step does to a resumed node -/

/-- Nothing is said, and what runs goes on; or a resume is accepted; or a result is recorded. -/
theorem Move.resume_cases (h : Move env s p a s') (hok : RunOk env.graph s.rows) :
    (resumeNotes s (p, a) s' = [] ∧ ∀ k ∈ env.graph.nodeKeys,
        (s.rows.executions k).status = .running → (s'.rows.executions k).status = .running) ∨
      (∃ now token key, a = .commitResume now ∧ (s.procs p).phase = .resuming token s.rows ∧
        waitingNode env.graph s.rows token = some key ∧
        resumeNotes s (p, a) s' = [.consumed key token] ∧
        s'.rows = Orqent.resumed now key s.rows) ∨
      ∃ key, resumeNotes s (p, a) s' = [.recorded key] ∧
        ∀ k ≠ key, s'.rows.executions k = s.rows.executions k := by
  cases h with
  | tick now cycles rows ops hphase hlimit hsome heffect =>
      refine Or.inl ⟨rfl, fun k hk hrunning => ?_⟩
      rw [Sys.moved_rows]
      dsimp only
      rw [heffect.tick_executions]
      rcases hok.ticked_cases now hk with
        ⟨-, -, hrow⟩ | ⟨hst, -, -⟩ | ⟨hst, -, -⟩ | ⟨hst, -, -, -⟩
      · rw [hrow]
        rfl
      · rw [hrunning] at hst
        cases hst
      · rw [hrunning] at hst
        cases hst
      · exact absurd hrunning hst
  | resumed now token key hphase hfind hwaiting hsuspended =>
      refine Or.inr (Or.inl ⟨now, token, key, rfl, hphase, hfind, ?_, rfl⟩)
      simp only [resumeNotes, hphase, Sys.moved_self]
      rfl
  | settle now rejected cycles l outcome result todo failed hphase hrecorded hkey hrunning
    hstorable =>
      refine Or.inr (Or.inr ⟨l.key, ?_, fun k hk => ?_⟩)
      · simp only [resumeNotes, hphase, Sys.moved_self]
      · rw [Sys.moved_rows, RunRows.append_executions, RunRows.write_ne _ _ hk]
  | raised a hnot =>
      refine Or.inl ⟨?_, fun k _ hrunning => hrunning⟩
      unfold resumeNotes
      split
      · rename_i hphase
        rw [Sys.raised_self] at hphase
        cases hphase
      · rename_i hphase
        rw [Sys.raised_self] at hphase
        cases hphase
      · rfl
  | _ => exact Or.inl ⟨rfl, fun k _ hrunning => hrunning⟩

/-- A launch still to be invoked was there before, or was just started, or just resumed. -/
theorem Handover.open_launch (h : Handover env s p a s') {l : Launch}
    (hl : (l, none) ∈ (s'.procs p).phase.launched) :
    (l, none) ∈ (s.procs p).phase.launched ∨
      (∃ now, a = .commitTick now ∧
        (∃ cycles < env.graph.length + 1, (s.procs p).phase = .ticking cycles s.rows) ∧
        ((s.rows.executions l.key).status = .running →
          l.attempt = (s.rows.executions l.key).attempt + 1)) ∨
      ∃ now token, a = .commitResume now ∧ (s.procs p).phase = .resuming token s.rows ∧
        waitingNode env.graph s.rows token = some l.key ∧ l.token = some token := by
  cases h with
  | keep a s' hrows hquiet hlaunched => exact Or.inl (hlaunched.subset hl)
  | invoke key outcome s' cycles snap batch hphase hopen hrows hphase' =>
      refine Or.inl ?_
      rw [hphase'] at hl
      obtain ⟨d, hd, hentry⟩ := List.mem_map.mp hl
      have hsame : d = (l, none) := by
        obtain ⟨l', _ | known⟩ := d
        · rw [invokeEntry] at hentry
          split at hentry
          · cases hentry
          · exact hentry
        · exact hentry
      rw [hphase]
      exact hsame ▸ hd
  | settle now rejected s' l' outcome result hlaunched hrecorded hrunning hrows =>
      exact Or.inl (hlaunched ▸ List.mem_cons_of_mem _ hl)
  | tick now s' cycles ops hphase hlimit hphase' heffect =>
      refine Or.inr (Or.inl ⟨now, rfl, ⟨cycles, hlimit, hphase⟩, fun hrunning => ?_⟩)
      rw [hphase'] at hl
      obtain ⟨k, hk, heq⟩ := List.mem_map.mp hl
      obtain rfl := (Prod.mk.inj heq).1
      show (s'.rows.executions k).attempt = _
      rw [heffect.tick_executions, ticked_ready now hk, if_pos hrunning]
      rfl
  | resumed now s' token key hphase hphase' hfind hwaiting hsuspended hrows =>
      rw [hphase'] at hl
      obtain rfl := (Prod.mk.inj (List.mem_singleton.mp hl)).1
      exact Or.inr (Or.inr ⟨now, token, rfl, hphase, hfind, rfl⟩)

/-- A resumed node runs until a result of it is recorded. -/
theorem ResumeOk.running_step (h : ResumeOk env notes s) (hok : RunOk env.graph s.rows)
    (hmove : Move env s p a s')
    (hpending : pendingToken (notes ++ resumeNotes s (p, a) s') key = some token) :
    key ∈ env.graph.nodeKeys ∧ (s'.rows.executions key).status = .running := by
  rcases hmove.resume_cases hok with ⟨hnotes, hkept⟩ |
    ⟨now, t, k, -, -, hfind, hnotes, hrows⟩ | ⟨k, hnotes, hrows⟩
  · rw [hnotes, List.append_nil] at hpending
    obtain ⟨hmem, hrunning⟩ := h.running key token hpending
    exact ⟨hmem, hkept key hmem hrunning⟩
  · rw [hnotes, pendingToken_consumed] at hpending
    rw [hrows]
    by_cases hk : k = key
    · subst hk
      rw [resumed_self]
      exact ⟨(waitingNode_mem hfind).1, rfl⟩
    · rw [if_neg hk] at hpending
      rw [resumed_ne (Ne.symm hk)]
      exact h.running key token hpending
  · rw [hnotes, pendingToken_recorded] at hpending
    by_cases hk : k = key
    · rw [if_pos hk] at hpending
      cases hpending
    · rw [if_neg hk] at hpending
      rw [hrows key (Ne.symm hk)]
      exact h.running key token hpending

/-- The token a node has after a step: the one it had, unless the step resumed it. -/
theorem Move.pending (h : Move env s p a s') (hok : RunOk env.graph s.rows)
    (hpending : pendingToken (notes ++ resumeNotes s (p, a) s') key = some token) :
    pendingToken notes key = some token ∨ ∃ now, a = .commitResume now ∧
      (s.procs p).phase = .resuming token s.rows ∧
      waitingNode env.graph s.rows token = some key := by
  rcases h.resume_cases hok with ⟨hnotes, -⟩ | ⟨now, t, k, ha, hphase, hfind, hnotes, -⟩ |
    ⟨k, hnotes, -⟩
  · rw [hnotes, List.append_nil] at hpending
    exact Or.inl hpending
  · rw [hnotes, pendingToken_consumed] at hpending
    by_cases hk : k = key
    · subst hk
      rw [if_pos rfl] at hpending
      obtain rfl := Option.some.inj hpending
      exact Or.inr ⟨now, ha, hphase, hfind⟩
    · rw [if_neg hk] at hpending
      exact Or.inl hpending
  · rw [hnotes, pendingToken_recorded] at hpending
    by_cases hk : k = key
    · rw [if_pos hk] at hpending
      cases hpending
    · rw [if_neg hk] at hpending
      exact Or.inl hpending

/-- **The token is kept by every step that forgets none.** -/
theorem ResumeOk.step (h : ResumeOk env notes s) (hok : RunOk env.graph s.rows)
    (hmove : Move env s p a s') (hfree : ¬ Forgets env (s, notes) (p, a)) :
    ResumeOk env (notes ++ resumeNotes s (p, a) s') s' := by
  refine ⟨fun key token hpending => h.running_step hok hmove hpending, ?_⟩
  intro q l token hl hpending
  have hbefore := hmove.pending hok hpending
  -- Where the launch was there before, the node either had its token or has just been resumed.
  have hold : (l, none) ∈ (s.procs q).phase.launched →
      l.token = some token ∨ ¬ Repeats env l.key l.attempt := by
    intro hlaunched
    rcases hbefore with hhad | ⟨now, rfl, hphase, hfind⟩
    · exact h.carried q l token hlaunched hhad
    · by_contra hc
      rw [not_or, not_not] at hc
      exact hfree ⟨token, l.key, hphase, hfind, q, l, hlaunched, rfl, hc.1, hc.2⟩
  by_cases hq : q = p
  swap
  · rw [hmove.procs_ne hq] at hl
    exact hold hl
  subst hq
  rcases hmove.handover.open_launch hl with hlaunched | ⟨now, rfl, hticking, hattempt⟩ |
    ⟨now, t, rfl, hphase, hfind, htoken⟩
  · exact hold hlaunched
  · rcases hbefore with hhad | ⟨now', hcommit, -⟩
    · obtain ⟨hmem, hrunning⟩ := h.running l.key token hhad
      refine Or.inr fun hrepeats => hfree ⟨hticking, l.key, hmem, hrunning, ?_, ?_⟩
      · exact Option.isSome_iff_exists.mpr ⟨token, hhad⟩
      · rw [← hattempt hrunning]
        exact hrepeats
    · cases hcommit
  · rcases hbefore with hhad | ⟨now', -, hphase', -⟩
    · -- Only a waiting node is resumed, and one with a token runs.
      have hrunning := (h.running l.key token hhad).2
      cases hmove with
      | resumed now t' key hphase' hfind' hwaiting hsuspended =>
          rw [hphase, Phase.resuming.injEq] at hphase'
          obtain ⟨rfl, -⟩ := hphase'
          rw [hfind, Option.some.injEq] at hfind'
          rw [hfind', hwaiting] at hrunning
          cases hrunning
      | raised a hnot =>
          rw [Sys.raised_self] at hl
          cases hl
    · rw [hphase, Phase.resuming.injEq] at hphase'
      rw [htoken, hphase'.1]
      exact Or.inl rfl

theorem ResumeOk.carries (h : ResumeOk env notes s) : Carries env (s, notes) (p, a) := by
  cases a with
  | invoke key outcome =>
      intro call hcall hkey token hpending
      obtain ⟨cycles, snap, batch, hphase, hbatch, hcontext⟩ := mem_calls hcall
      have hlaunched : (call.1, none) ∈ (s.procs p).phase.launched := by
        rw [hphase]
        exact hbatch
      obtain ⟨htoken, hrepeats⟩ := invocation_token hcontext
      rcases h.carried p call.1 token hlaunched (hkey ▸ hpending) with hcarried | hrefused
      · rw [htoken, hcarried]
      · exact absurd hrepeats hrefused
  | _ => trivial

theorem start_resumeOk (env : Env Value) (now : Time) : ResumeOk env [] (Sys.start P env now) where
  running := by
    intro key token h
    cases h
  carried := by
    intro p l token h
    cases h

/--
**An accepted resume is carried to the node in every run that does not forget it.**  As
long as no tick recovers a resumed node that has no result yet (and may be repeated), and
no resume is accepted while another process is still to invoke the node, every call of
the runner of a resumed node, until a result of it is recorded, is given the token that
was consumed.
-/
theorem resume_carried {tr : List (P × Action Value)} {x : Sys P Value × List ResumeNote}
    (h : Trace.run (Trace.noting (Sys.step env) resumeNotes) (Sys.start P env now, []) tr = some x)
    (hfree : Trace.Along (Trace.noting (Sys.step env) resumeNotes) (fun x a => ¬ Forgets env x a)
      (Sys.start P env now, []) tr) :
    Trace.Along (Trace.noting (Sys.step env) resumeNotes) (Carries env)
      (Sys.start P env now, []) tr := by
  refine (Trace.along_of_invariant (I := fun x => ResumeOk env x.2 x.1)
    (start_resumeOk env now) ?_ ?_ h hfree).2
  · intro tr x step x' _ hresume _ _
    exact hresume.carries
  · intro tr x step x' hrun hresume hforgets hstep
    obtain ⟨s, notes⟩ := x
    obtain ⟨p, a⟩ := step
    obtain ⟨s', hstep', rfl⟩ := Option.map_eq_some_iff.mp hstep
    have hok : SysOk env s := sys_ok (Trace.run_noting hrun)
    exact hresume.step hok.rows (hok.step_move hstep') hforgets

end Steps

/-! ### The rejoining branch, resumed -/

/-- No resumed node runs where a tick is applied, and nothing is still to be invoked where a
resume is accepted. -/
def remembers (x : Sys Bool Unit × List ResumeNote) (a : Bool × Action Unit) : Bool :=
  match a.2 with
  | .commitTick _ => rejoinGraph.nodeKeys.all fun key => (pendingToken x.2 key).isNone
  | .commitResume _ =>
      (x.1.procs true).phase.launched.isEmpty && (x.1.procs false).phase.launched.isEmpty
  | _ => true

theorem not_forgets_of_remembers {x : Sys Bool Unit × List ResumeNote} {a : Bool × Action Unit}
    (h : remembers x a = true) : ¬ Forgets rejoinEnv x a := by
  obtain ⟨p, a⟩ := a
  cases a with
  | commitTick now =>
      rintro ⟨-, key, hkey, -, hpending, -⟩
      have hnone := List.all_eq_true.mp h key hkey
      rw [Option.isNone_iff_eq_none.mp hnone] at hpending
      cases hpending
  | commitResume now =>
      rintro ⟨token, key, -, -, q, l, hl, -⟩
      simp only [remembers, Bool.and_eq_true, List.isEmpty_iff] at h
      cases q with
      | true =>
          rw [h.1] at hl
          cases hl
      | false =>
          rw [h.2] at hl
          cases hl
  | _ => exact id

/-- The call that resumed `other` invokes it and records its result. -/
def rejoinKept : List (Bool × Action Unit) :=
  rejoinResumed ++ [(false, .invoke "other" (.returned (.completed []))), (false, .gather),
    (false, .beginSettle), (false, .commitSettle 0 false)]

theorem rejoin_carried : Trace.Along (Trace.noting (Sys.step rejoinEnv) resumeNotes)
    (Carries rejoinEnv) (Sys.start Bool rejoinEnv 0, []) rejoinKept := by
  have hsome : (Trace.run (Trace.noting (Sys.step rejoinEnv) resumeNotes)
      (Sys.start Bool rejoinEnv 0, []) rejoinKept).isSome = true := by
    decide +kernel
  obtain ⟨x, hrun⟩ := Option.isSome_iff_exists.mp hsome
  have hremembers : Trace.Along (Trace.noting (Sys.step rejoinEnv) resumeNotes)
      (fun x a => remembers x a = true) (Sys.start Bool rejoinEnv 0, []) rejoinKept := by
    decide +kernel
  exact resume_carried hrun (hremembers.imp fun _ _ => not_forgets_of_remembers)

/-- The call that resumed `other` dies after its first commit, and the worker goes on. -/
def rejoinOrphaned : List (Bool × Action Unit) :=
  rejoinResumed ++ [(false, .crash), (true, .commitTick 0)]

/-- The worker records what `other` did, and reads the run once more. -/
def rejoinRecorded (result : NodeResult Unit) : List (Bool × Action Unit) :=
  [(true, .invoke "other" (.returned result)), (true, .gather), (true, .beginSettle),
    (true, .commitSettle 0 false), (true, .beginSettle), (true, .beginTick), (true, .commitTick 0)]

/--
The worker recovers `other` and calls it with no token: a `core.wait` suspends again, and
the run waits for a second resume.
-/
theorem resume_forgotten : ∃ x context, Trace.run (Trace.noting (Sys.step rejoinEnv) resumeNotes)
      (Sys.start Bool rejoinEnv 0, []) rejoinOrphaned = some x ∧
    pendingToken x.2 "other" = some "token" ∧
    (x.1.procs true).phase.calls rejoinEnv = [(⟨"other", 2, none⟩, context)] ∧
    coreWait "again" context = .suspended "again" (some "Waiting to be resumed.") ∧
    (∀ outcome, ¬ Carries rejoinEnv x (true, .invoke "other" outcome)) ∧
    (Trace.run (Sys.step rejoinEnv) x.1 (rejoinRecorded (coreWait "again" context))).map
        (fun t => (t.rows.run.status, (t.rows.executions "other").resumeToken))
      = some (.suspended, some "again") := by
  have heval : (Trace.run (Trace.noting (Sys.step rejoinEnv) resumeNotes)
      (Sys.start Bool rejoinEnv 0, []) rejoinOrphaned).map (fun x =>
        (pendingToken x.2 "other", ((x.1.procs true).phase.calls rejoinEnv).map
            fun call => (call.1, call.2.resumeToken),
          (Trace.run (Sys.step rejoinEnv) x.1 (rejoinRecorded
              (.suspended "again" (some "Waiting to be resumed.")))).map
            fun t => (t.rows.run.status, (t.rows.executions "other").resumeToken)))
      = some (some "token", [(⟨"other", 2, none⟩, none)], some (.suspended, some "again")) := by
    decide +kernel
  obtain ⟨x, hrun, hvalues⟩ := Option.map_eq_some_iff.mp heval
  simp only [Prod.mk.injEq] at hvalues
  obtain ⟨hpending, hcalls, hrest⟩ := hvalues
  obtain ⟨call, hcall, hpair⟩ := List.map_eq_singleton_iff.mp hcalls
  obtain ⟨l, context⟩ := call
  obtain ⟨rfl, htoken⟩ := Prod.mk.inj hpair
  have hwait : coreWait "again" context = .suspended "again" (some "Waiting to be resumed.") := by
    rw [coreWait, htoken]
  refine ⟨x, context, hrun, hpending, hcall, hwait, fun outcome hcarries => ?_, hwait ▸ hrest⟩
  have hcarried := hcarries (⟨"other", 2, none⟩, context)
    (by rw [hcall]; exact List.mem_singleton_self _) rfl "token" hpending
  rw [htoken] at hcarried
  cases hcarried

end Orqent
