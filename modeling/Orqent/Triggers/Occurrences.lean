/-
One run per scheduled occurrence.

Dispatchers keep apart by the lock of the row they claim: what a dispatch has claimed stays
as it found it until it commits, and it leaves the row due later than its own clock.  So
between publishes the due time of a schedule only moves on, and no occurrence comes twice.

A publish writes the due time without having read it under a lock.  It takes what comes
next after its own clock; if a dispatch of that occurrence commits before the publish
writes, the occurrence is due once more.  `overtakes` says that this happens, and
`one_run_per_occurrence` that an occurrence is dispatched once in every run without it.
The other guarantees need no such condition: `Settles` is what a step can do.
-/
import Orqent.Triggers.Dispatch

namespace Orqent

open RowTxn

variable {Value ι : Type}

/-! ### What has been dispatched -/

/-- The dispatches that committed, in order. -/
def dispatches (log : List (DispatchState Value)) : List Claimed :=
  log.filterMap fun
    | .dispatched d => some d
    | _ => none

/-- No two runs of a schedule are for one occurrence; the runs there are, and the tasks, are
those of the dispatches that committed. -/
structure OncePerOccurrence (p : Dispatching Value ι) : Prop where
  runs : p.committed.runs = (dispatches p.log).map Claimed.run
  tasks : p.committed.tasks = (dispatches p.log).map Claimed.runId
  once : (dispatches p.log).Pairwise fun d d' =>
    d.schedule.id = d'.schedule.id → d.run.scheduledFor ≠ d'.run.scheduledFor

/--
A step commits nothing, or an edit, which makes no run; or it commits a dispatch: the
schedule moves on from the occurrence that was due to one later than the clock of the
dispatch, the run of that occurrence is there, and its task.
-/
inductive Settles (p p' : Dispatching Value ι) : Prop
  | quiet (hrows : p'.committed = p.committed) (hlog : p'.log = p.log)
  | edited (call : TriggerCall Value) (hlog : p'.log = p.log ++ [.issuing call []])
      (hruns : p'.committed.runs = p.committed.runs)
      (htasks : p'.committed.tasks = p.committed.tasks)
  | dispatched (d : Claimed) (hlog : p'.log = p.log ++ [.dispatched d])
      (hmem : d.schedule ∈ p.committed.triggers.schedules) (hdue : d.occurrence ≤ d.now)
      (hlater : d.now < d.nextRunAt)
      (hrows : p'.committed = d.enqueue (d.create p.committed))

/-- The schedule a publish sets, by what it read, and when it will be due. -/
def setBy (P : TriggerPorts Value) (snap : TriggerDb Value) : TriggerCall Value → Option (Nat × Nat)
  | .publish _ scheduleId now => do
      let (version, _) ← snap.tables.getDraft
      let trigger ← triggerNode scheduleTrigger (snap.tables.graphs version)
      let cron ← scheduleCron P trigger.node.config
      let due ← P.getNext cron now
      some ((snap.schedule.map Schedule.id).getD scheduleId, due)
  | _ => none

/-- The transaction is a publish about to commit, and an occurrence that it sets its schedule
back to, or one after it, has been dispatched. -/
def setsBack (P : TriggerPorts Value) (log : List (DispatchState Value))
    (t : RowTxn.Txn (DispatchDb Value) (DispatchState Value)) : Bool :=
  match t.state, t.snap with
  | .issuing call [], some snap =>
      (setBy P snap.triggers call).any fun set =>
        (dispatches log).any fun d => d.schedule.id = set.1 && set.2 ≤ d.occurrence
  | _, _ => false

/-- A publish commits behind a dispatch of the occurrence it decided on. -/
def overtakes (P : TriggerPorts Value) (p : Dispatching Value ι) : DispatchEvent Value ι → Bool
  | .step i => (p.opened i).any (setsBack P p.log)
  | _ => false

/-! ### What a statement does to the schedules -/

/-- The schedule a statement sets, and when it will be due. -/
def TriggerStatement.sets : TriggerStatement Value → Option (Nat × Nat)
  | .addSchedule id _ nextRunAt => some (id, nextRunAt)
  | .pointSchedule id _ nextRunAt => some (id, nextRunAt)
  | _ => none

section Statements

variable {P : TriggerPorts Value} {w : TriggerStatement Value} {db rows : TriggerDb Value}
  {f : TriggerDb Value → TriggerDb Value} {s : Schedule}

/-- A schedule that is not locked is left alone. -/
theorem act_frame (hact : w.act db = some f) (hs : s ∈ rows.schedules)
    (hlock : .schedule s.id ∉ w.rowLocks db) : s ∈ (f rows).schedules := by
  cases w with
  | version v =>
      obtain ⟨d, hexec, rfl⟩ := Option.map_eq_some_iff.mp hact
      refine List.mem_filter.mpr ⟨hs, decide_eq_true fun hdrop => hlock ?_⟩
      refine List.mem_append_left _ (List.mem_append_right _ ?_)
      exact List.mem_map_of_mem hdrop
  | addRegistration target digest =>
      obtain ⟨d, hexec, rfl⟩ := Option.map_eq_some_iff.mp hact
      obtain ⟨-, hd⟩ := Option.ite_none_right_eq_some.mp hexec
      obtain rfl := Option.some.inj hd
      exact hs
  | pointRegistration digest target =>
      obtain ⟨d, hexec, rfl⟩ := Option.map_eq_some_iff.mp hact
      obtain ⟨-, hd⟩ := Option.ite_none_right_eq_some.mp hexec
      obtain rfl := Option.some.inj hd
      exact hs
  | revoke digest =>
      obtain rfl := Option.some.inj hact
      exact hs
  | addSchedule id target nextRunAt =>
      obtain ⟨d, hexec, rfl⟩ := Option.map_eq_some_iff.mp hact
      obtain ⟨-, hd⟩ := Option.ite_none_right_eq_some.mp hexec
      obtain rfl := Option.some.inj hd
      exact List.mem_append_left _ hs
  | pointSchedule id target nextRunAt =>
      obtain ⟨d, hexec, rfl⟩ := Option.map_eq_some_iff.mp hact
      obtain ⟨-, hd⟩ := Option.ite_none_right_eq_some.mp hexec
      obtain rfl := Option.some.inj hd
      refine List.mem_map.mpr ⟨s, hs, if_neg fun hid => hlock ?_⟩
      rw [hid]
      exact List.mem_cons_of_mem _ (List.mem_singleton_self _)
  | delete =>
      obtain rfl := Option.some.inj hact
      exact hs

/-- A schedule that is not as it was has been set. -/
theorem act_sets (hact : w.act db = some f) (hs : s ∈ (f rows).schedules) :
    s ∈ rows.schedules ∨ w.sets = some (s.id, s.nextRunAt) := by
  cases w with
  | version v =>
      obtain ⟨d, hexec, rfl⟩ := Option.map_eq_some_iff.mp hact
      exact Or.inl (List.mem_of_mem_filter hs)
  | addRegistration target digest =>
      obtain ⟨d, hexec, rfl⟩ := Option.map_eq_some_iff.mp hact
      obtain ⟨-, hd⟩ := Option.ite_none_right_eq_some.mp hexec
      obtain rfl := Option.some.inj hd
      exact Or.inl hs
  | pointRegistration digest target =>
      obtain ⟨d, hexec, rfl⟩ := Option.map_eq_some_iff.mp hact
      obtain ⟨-, hd⟩ := Option.ite_none_right_eq_some.mp hexec
      obtain rfl := Option.some.inj hd
      exact Or.inl hs
  | revoke digest =>
      obtain rfl := Option.some.inj hact
      exact Or.inl hs
  | addSchedule id target nextRunAt =>
      obtain ⟨d, hexec, rfl⟩ := Option.map_eq_some_iff.mp hact
      obtain ⟨-, hd⟩ := Option.ite_none_right_eq_some.mp hexec
      obtain rfl := Option.some.inj hd
      rcases List.mem_append.mp hs with hold | hnew
      · exact Or.inl hold
      · rw [List.mem_singleton.mp hnew]
        exact Or.inr rfl
  | pointSchedule id target nextRunAt =>
      obtain ⟨d, hexec, rfl⟩ := Option.map_eq_some_iff.mp hact
      obtain ⟨-, hd⟩ := Option.ite_none_right_eq_some.mp hexec
      obtain rfl := Option.some.inj hd
      obtain ⟨old, hold, rfl⟩ := List.mem_map.mp hs
      by_cases hid : old.id = id
      · rw [if_pos hid]
        exact Or.inr (by rw [← hid]; rfl)
      · rw [if_neg hid]
        exact Or.inl hold
  | delete =>
      obtain rfl := Option.some.inj hact
      exact Or.inl hs

/-- What a call sets is what its snapshot and its clock say. -/
theorem setBy_of_body [DecidableEq Value] {call : TriggerCall Value} {snap : TriggerDb Value}
    {ws : List (TriggerStatement Value)} {set : Nat × Nat} (hbody : call.body P snap = some ws)
    (hw : w ∈ ws) (hsets : w.sets = some set) : setBy P snap call = some set := by
  have hversion : ∀ {vs : List (Statement Value)}, w ∉ vs.map TriggerStatement.version := by
    intro vs hmem
    obtain ⟨v, -, rfl⟩ := List.mem_map.mp hmem
    cases hsets
  cases call with
  | getDraft ids =>
      obtain ⟨vs, -, rfl⟩ := Option.map_eq_some_iff.mp (Option.ite_none_left_eq_some.mp hbody).2
      exact absurd hw hversion
  | replaceDraft ids revision graph =>
      obtain ⟨vs, -, rfl⟩ := Option.map_eq_some_iff.mp (Option.ite_none_left_eq_some.mp hbody).2
      exact absurd hw hversion
  | softDelete =>
      obtain rfl := Option.some.inj (Option.ite_none_left_eq_some.mp hbody).2
      rw [List.mem_singleton.mp hw] at hsets
      cases hsets
  | revoke digest =>
      obtain rfl := Option.some.inj hbody
      rw [List.mem_singleton.mp hw] at hsets
      cases hsets
  | publish token scheduleId now =>
      obtain ⟨-, hws⟩ := Option.ite_none_left_eq_some.mp hbody
      obtain ⟨statements, -, hws⟩ := Option.bind_eq_some_iff.mp hws
      obtain ⟨⟨version, row⟩, hdraft, hws⟩ := Option.bind_eq_some_iff.mp hws
      obtain ⟨schedule, hschedule, hws⟩ := Option.bind_eq_some_iff.mp hws
      obtain rfl := Option.some.inj hws
      have hmem : w ∈ schedule := by
        rcases List.mem_append.mp hw with hfirst | hrest
        · exact absurd hfirst hversion
        rcases List.mem_append.mp hrest with hwebhook | hmem
        · exfalso
          unfold registerWebhook at hwebhook
          split at hwebhook
          · cases hwebhook
          · split at hwebhook
            · rw [List.mem_singleton.mp hwebhook] at hsets
              cases hsets
            · rw [List.mem_singleton.mp hwebhook] at hsets
              cases hsets
        · exact hmem
      unfold registerSchedule at hschedule
      split at hschedule
      · obtain rfl := Option.some.inj hschedule
        cases hmem
      rename_i trigger htrigger
      obtain ⟨cron, hcron, hschedule⟩ := Option.bind_eq_some_iff.mp hschedule
      obtain ⟨due, hdue, hschedule⟩ := Option.bind_eq_some_iff.mp hschedule
      have hset : setBy P snap (.publish token scheduleId now) =
          some ((snap.schedule.map Schedule.id).getD scheduleId, due) := by
        simp [setBy, hdraft, htrigger, hcron, hdue]
      rw [hset]
      split at hschedule
      · rename_i existing hexisting
        obtain rfl := Option.some.inj hschedule
        rw [List.mem_singleton.mp hmem] at hsets
        rw [← hsets, hexisting]
        rfl
      · rename_i hnone
        obtain rfl := Option.some.inj hschedule
        rw [List.mem_singleton.mp hmem] at hsets
        rw [← hsets, hnone]
        rfl

end Statements

/-! ### What a transaction knows -/

section Transactions

variable [DecidableEq Value] {P : TriggerPorts Value} {s s' : DispatchDb Value}
  {log : List (DispatchState Value)} {held held' : List DispatchLock}
  {t u : RowTxn.Txn (DispatchDb Value) (DispatchState Value)}

/-- What was claimed is locked, and still as it was found. -/
structure Claims (d : Claimed) (s : DispatchDb Value) (held : List DispatchLock) : Prop where
  lock : .schedule d.schedule.id ∈ held
  mem : d.schedule ∈ s.triggers.schedules
  due : d.occurrence ≤ d.now
  later : d.now < d.nextRunAt

/-- Changes that make no run and set only the schedules that the statements `ws` set. -/
def Edits (ws : List (TriggerStatement Value)) (f : DispatchDb Value → DispatchDb Value) : Prop :=
  ∀ s, (f s).runs = s.runs ∧ (f s).tasks = s.tasks ∧
    ∀ r ∈ (f s).triggers.schedules, r ∈ s.triggers.schedules ∨
      ∃ w ∈ ws, w.sets = some (r.id, r.nextRunAt)

/-- How far a transaction has come, and what it has changed. -/
def Stage (P : TriggerPorts Value) (s : DispatchDb Value) (held : List DispatchLock)
    (t : RowTxn.Txn (DispatchDb Value) (DispatchState Value)) : Prop :=
  match t.state with
  | .refused => True
  | .editing _ => t.changes = []
  | .issuing call todo => ∃ snap issued, t.snap = some snap ∧
      call.body P snap.triggers = some (issued ++ todo) ∧ Edits issued (view t.changes)
  | .waking .. => t.changes = []
  | .claiming .. => t.changes = []
  | .claimed d => (∀ rows, view t.changes rows = rows) ∧ Claims d s held
  | .created d => (∀ rows, view t.changes rows = d.create rows) ∧ Claims d s held
  | .dispatched d => (∀ rows, view t.changes rows = d.enqueue (d.create rows)) ∧ Claims d s held

/-- A transaction leaves alone the schedules that it has not locked. -/
def Frames (held : List DispatchLock)
    (t : RowTxn.Txn (DispatchDb Value) (DispatchState Value)) : Prop :=
  ∀ (rows : DispatchDb Value) (r : Schedule), r ∈ rows.triggers.schedules →
    .schedule r.id ∉ held → r ∈ (view t.changes rows).triggers.schedules

/-- What holds of an open transaction. -/
def Asserts (P : TriggerPorts Value) (s : DispatchDb Value) (_ : List (DispatchState Value))
    (held : List DispatchLock) (t : RowTxn.Txn (DispatchDb Value) (DispatchState Value)) : Prop :=
  Frames held t ∧ Stage P s held t

omit [DecidableEq Value] in
theorem frames_nil {state : DispatchState Value} {snap : Option (DispatchDb Value)} :
    Frames held ⟨state, snap, []⟩ :=
  fun _ _ hr _ => hr

/-- What it has claimed stays there, whatever commits beside it. -/
theorem Claims.other {d : Claimed} (h : Claims d s held) (hframes : Frames held' u)
    (hapart : ∀ l ∈ held, ∀ l' ∈ held', (dispatchService P).conflicts l l' = false) :
    Claims d (view u.changes s) held where
  lock := h.lock
  mem := by
    refine hframes s d.schedule h.mem fun hlock => ?_
    have hconflict := hapart _ h.lock _ hlock
    simp [dispatchService, DispatchLock.conflicts] at hconflict
  due := h.due
  later := h.later

theorem asserts_read (hasserts : Asserts P s log held t)
    {k : DispatchDb Value → DispatchState Value}
    (hnext : (dispatchService P).next t.state = .read k) :
    Asserts P s log held
      ⟨k (view t.changes (t.snap.getD s)), some (t.snap.getD s), t.changes⟩ := by
  obtain ⟨state, snap, changes⟩ := t
  obtain ⟨hframes, hstage⟩ := hasserts
  cases state with
  | editing call =>
      obtain rfl : changes = [] := hstage
      obtain rfl := RowStatement.read.inj hnext
      refine ⟨frames_nil, ?_⟩
      dsimp only [view_nil]
      split
      · trivial
      · rename_i ws hbody
        exact ⟨_, [], rfl, hbody, fun rows => ⟨rfl, rfl, fun r hr => Or.inl hr⟩⟩
  | waking now pick runId =>
      obtain rfl : changes = [] := hstage
      obtain rfl := RowStatement.read.inj hnext
      exact ⟨frames_nil, rfl⟩
  | issuing call todo =>
      cases todo with
      | nil => cases hnext
      | cons w todo => cases hnext
  | refused | claiming now pick runId snap | claimed d | created d | dispatched d => cases hnext

omit [DecidableEq Value] in
/-- A schedule that is claimed is due, and its next occurrence is later than the clock. -/
theorem claims_of_plan (hnext : ∀ cron base due, P.getNext cron base = some due → base < due)
    {snap : TriggerDb Value} {now pick runId : Nat} {free : DispatchLock → Bool} {r : Schedule}
    {d : Claimed} (hpick : pickDue snap s.triggers now pick free = some r)
    (hplan : planDispatch P snap now runId r = some d) :
    d.schedule = r ∧ d.schedule ∈ s.triggers.schedules ∧ d.occurrence ≤ d.now ∧
      d.now < d.nextRunAt := by
  obtain ⟨cron, -, hplan⟩ := Option.bind_eq_some_iff.mp hplan
  obtain ⟨nextRunAt, hlater, hplan⟩ := Option.bind_eq_some_iff.mp hplan
  obtain ⟨-, hd⟩ := Option.ite_none_right_eq_some.mp hplan
  obtain rfl := Option.some.inj hd
  obtain ⟨hmem, hdue⟩ := List.mem_filter.mp (List.mem_of_getElem? hpick)
  simp only [Bool.and_eq_true, decide_eq_true_eq] at hdue
  exact ⟨rfl, hmem, hdue.1.1.1, hnext cron now nextRunAt hlater⟩

theorem asserts_lock (hnext : ∀ cron base due, P.getNext cron base = some due → base < due)
    (hasserts : Asserts P s log held t)
    {locks : (DispatchLock → Bool) → DispatchDb Value → List DispatchLock}
    {run : (DispatchLock → Bool) → DispatchDb Value →
      Option (DispatchState Value × (DispatchDb Value → DispatchDb Value))}
    {free : DispatchLock → Bool} {state : DispatchState Value}
    {f : DispatchDb Value → DispatchDb Value}
    (hstatement : (dispatchService P).next t.state = .lock locks run)
    (hrun : run free (view t.changes s) = some (state, f)) :
    Asserts P s log (held ++ locks free (view t.changes s))
      ⟨state, t.snap, t.changes ++ [f]⟩ := by
  obtain ⟨before, snap, changes⟩ := t
  obtain ⟨hframes, hstage⟩ := hasserts
  -- The rows it had not locked it left alone, and so does the new change.
  have hnew : (∀ (rows : DispatchDb Value) (r : Schedule), r ∈ rows.triggers.schedules →
      .schedule r.id ∉ held ++ locks free (view changes s) → r ∈ (f rows).triggers.schedules) →
        Frames (held ++ locks free (view changes s)) ⟨state, snap, changes ++ [f]⟩ := by
    intro hf rows r hr hlock
    dsimp only
    rw [view_snoc]
    refine hf _ r (hframes rows r hr fun hc => hlock (List.mem_append_left _ hc)) hlock
  cases before with
  | issuing call todo =>
      cases todo with
      | nil => cases hstatement
      | cons w todo =>
          obtain ⟨rfl, rfl⟩ := RowStatement.lock.inj hstatement
          obtain ⟨g, hact, hg⟩ := Option.map_eq_some_iff.mp hrun
          obtain ⟨rfl, rfl⟩ := Prod.mk.inj hg
          obtain ⟨taken, issued, hsnap, hbody, hedits⟩ := hstage
          refine ⟨hnew fun rows r hr hlock => ?_, taken, issued ++ [w], hsnap, ?_, fun rows => ?_⟩
          · exact act_frame hact hr fun hc => hlock (List.mem_append_right _ hc)
          · rw [List.append_assoc]
            exact hbody
          · obtain ⟨hruns, htasks, hschedules⟩ := hedits rows
            dsimp only
            rw [view_snoc]
            refine ⟨hruns, htasks, fun r hr => ?_⟩
            rcases act_sets hact hr with hold | hset
            · rcases hschedules r hold with hbefore | ⟨v, hv, hset⟩
              · exact Or.inl hbefore
              · exact Or.inr ⟨v, List.mem_append_left _ hv, hset⟩
            · exact Or.inr ⟨w, List.mem_append_right _ (List.mem_singleton_self _), hset⟩
  | claiming now pick runId taken =>
      obtain rfl : changes = [] := hstage
      obtain ⟨rfl, rfl⟩ := RowStatement.lock.inj hstatement
      dsimp only [view_nil] at hrun hnew ⊢
      split at hrun
      · obtain ⟨rfl, rfl⟩ := Prod.mk.inj (Option.some.inj hrun)
        exact ⟨hnew fun rows r hr _ => hr, trivial⟩
      · rename_i r hpick
        obtain ⟨d, hplan, hd⟩ := Option.map_eq_some_iff.mp hrun
        obtain ⟨rfl, rfl⟩ := Prod.mk.inj hd
        obtain ⟨hschedule, hmem, hdue, hlater⟩ := claims_of_plan hnext hpick hplan
        refine ⟨hnew fun rows r hr _ => hr, fun rows => rfl, ?_, hmem, hdue, hlater⟩
        refine List.mem_append_right _ ?_
        rw [hpick, hschedule]
        exact List.mem_singleton_self _
  | claimed d =>
      obtain ⟨rfl, rfl⟩ := RowStatement.lock.inj hstatement
      obtain ⟨-, hcreated⟩ := Option.ite_none_right_eq_some.mp hrun
      obtain ⟨rfl, rfl⟩ := Prod.mk.inj (Option.some.inj hcreated)
      obtain ⟨hsame, hclaims⟩ := hstage
      refine ⟨hnew fun rows r hr hlock => ?_, fun rows => ?_,
        List.mem_append_left _ hclaims.lock, hclaims.mem, hclaims.due, hclaims.later⟩
      · refine List.mem_map.mpr ⟨r, hr, if_neg fun hid => hlock ?_⟩
        rw [hid]
        exact List.mem_append_left _ hclaims.lock
      · dsimp only
        rw [view_snoc]
        exact congrArg d.create (hsame rows)
  | created d =>
      obtain ⟨rfl, rfl⟩ := RowStatement.lock.inj hstatement
      obtain ⟨rfl, rfl⟩ := Prod.mk.inj (Option.some.inj hrun)
      obtain ⟨hsame, hclaims⟩ := hstage
      refine ⟨hnew fun rows r hr _ => hr, fun rows => ?_,
        List.mem_append_left _ hclaims.lock, hclaims.mem, hclaims.due, hclaims.later⟩
      dsimp only
      rw [view_snoc]
      exact congrArg d.enqueue (hsame rows)
  | refused | editing call | waking now pick runId | dispatched d => cases hstatement

theorem asserts_other (hasserts : Asserts P s log held t) (hother : Asserts P s log held' u)
    (hapart : ∀ l ∈ held, ∀ l' ∈ held', (dispatchService P).conflicts l l' = false) :
    Asserts P (view u.changes s) (log ++ [u.state]) held t := by
  obtain ⟨state, snap, changes⟩ := t
  obtain ⟨hframes, hstage⟩ := hasserts
  refine ⟨hframes, ?_⟩
  cases state with
  | claimed d => exact ⟨hstage.1, hstage.2.other hother.1 hapart⟩
  | created d => exact ⟨hstage.1, hstage.2.other hother.1 hapart⟩
  | dispatched d => exact ⟨hstage.1, hstage.2.other hother.1 hapart⟩
  | refused | editing call | issuing call todo | waking now pick runId
  | claiming now pick runId taken => exact hstage

/-! ### The rule -/

/-- What a transaction knows is kept, whatever the invariant of the rows is. -/
theorem keeps_asserts (hnext : ∀ cron base due, P.getNext cron base = some due → base < due)
    {I : DispatchDb Value → List (DispatchState Value) → Prop}
    {G : DispatchDb Value → List (DispatchState Value) → List DispatchLock →
      RowTxn.Txn (DispatchDb Value) (DispatchState Value) → Prop}
    (hcommit : ∀ s log held t, I s log → Asserts P s log held t → G s log held t →
      (dispatchService P).next t.state = .commit → I (view t.changes s) (log ++ [t.state])) :
    Keeps (dispatchService P) (fun _ _ _ => True) G I (Asserts P) where
  begin := by
    intro s log call _ _
    refine ⟨frames_nil, ?_⟩
    cases call with
    | edit call => exact rfl
    | dispatch now pick runId => exact rfl
  read := fun s log held t k _ hasserts _ hstatement => asserts_read hasserts hstatement
  lock := fun s log held t locks run free state f _ hasserts _ hstatement hrun =>
    asserts_lock hnext hasserts hstatement hrun
  commit := hcommit
  other := fun s log held t held' u _ hasserts hother _ hapart _ =>
    asserts_other hasserts hother hapart

/-- What commits is an edit or a dispatch. -/
inductive Commits (P : TriggerPorts Value) (s : DispatchDb Value) (held : List DispatchLock)
    (t : RowTxn.Txn (DispatchDb Value) (DispatchState Value)) : Prop
  | edit (call : TriggerCall Value) (snap : DispatchDb Value)
      (ws : List (TriggerStatement Value)) (hstate : t.state = .issuing call [])
      (hsnap : t.snap = some snap) (hbody : call.body P snap.triggers = some ws)
      (hedits : Edits ws (view t.changes))
  | dispatch (d : Claimed) (hstate : t.state = .dispatched d)
      (hchanges : ∀ rows, view t.changes rows = d.enqueue (d.create rows))
      (hclaims : Claims d s held)

theorem Asserts.commits (hasserts : Asserts P s log held t)
    (hstatement : (dispatchService P).next t.state = .commit) : Commits P s held t := by
  obtain ⟨state, snap, changes⟩ := t
  obtain ⟨-, hstage⟩ := hasserts
  cases state with
  | issuing call todo =>
      cases todo with
      | nil =>
          obtain ⟨taken, issued, hsnap, hbody, hedits⟩ := hstage
          rw [List.append_nil] at hbody
          exact .edit call taken issued rfl hsnap hbody hedits
      | cons w todo => cases hstatement
  | dispatched d => exact .dispatch d rfl hstage.1 hstage.2
  | refused | editing call | waking now pick runId | claiming now pick runId taken | claimed d
  | created d => cases hstatement

/-! ### Publishes that set nothing back -/

omit [DecidableEq Value] in
theorem dispatches_snoc {state : DispatchState Value} :
    dispatches (log ++ [state]) = dispatches log ++ dispatches [state] :=
  List.filterMap_append

/-- Every schedule is due later than any occurrence of it that has been dispatched. -/
structure Ahead (s : DispatchDb Value) (log : List (DispatchState Value)) : Prop where
  runs : s.runs = (dispatches log).map Claimed.run
  tasks : s.tasks = (dispatches log).map Claimed.runId
  later : ∀ d ∈ dispatches log, ∀ r ∈ s.triggers.schedules, r.id = d.schedule.id →
    d.occurrence < r.nextRunAt
  once : (dispatches log).Pairwise fun d d' =>
    d.schedule.id = d'.schedule.id → d.run.scheduledFor ≠ d'.run.scheduledFor

theorem Ahead.edit (h : Ahead s log) {call : TriggerCall Value} {snap : DispatchDb Value}
    {ws : List (TriggerStatement Value)} (hstate : t.state = .issuing call [])
    (hsnap : t.snap = some snap) (hbody : call.body P snap.triggers = some ws)
    (hedits : Edits ws (view t.changes)) (hahead : setsBack P log t = false) :
    Ahead (view t.changes s) (log ++ [t.state]) := by
  have hsame : dispatches (log ++ [t.state]) = dispatches log := by
    rw [dispatches_snoc, hstate]
    exact List.append_nil _
  obtain ⟨hruns, htasks, hschedules⟩ := hedits s
  refine ⟨?_, ?_, ?_, ?_⟩
  · rw [hruns, hsame]
    exact h.runs
  · rw [htasks, hsame]
    exact h.tasks
  · rw [hsame]
    intro d hd r hr hid
    rcases hschedules r hr with hold | ⟨w, hw, hsets⟩
    · exact h.later d hd r hold hid
    · by_contra hlate
      have hset := setBy_of_body hbody hw hsets
      have hback : setsBack P log t = true := by
        simp only [setsBack, hstate, hsnap, hset, Option.any_some, List.any_eq_true]
        refine ⟨d, hd, ?_⟩
        simpa [hid] using Nat.le_of_not_lt hlate
      rw [hback] at hahead
      cases hahead
  · rw [hsame]
    exact h.once

omit [DecidableEq Value] in
theorem Ahead.dispatch (h : Ahead s log) {d : Claimed} (hclaims : Claims d s held) :
    Ahead (d.enqueue (d.create s)) (log ++ [.dispatched d]) := by
  have hmore : dispatches (log ++ [.dispatched d]) = dispatches log ++ [d] := dispatches_snoc
  -- It was due later than any occurrence before, and is due later than this one now.
  have hbefore : ∀ d' ∈ dispatches log, d'.schedule.id = d.schedule.id →
      d'.occurrence < d.occurrence := fun d' hd' hid =>
    h.later d' hd' d.schedule hclaims.mem hid.symm
  have hmoved : d.occurrence < d.nextRunAt := Nat.lt_of_le_of_lt hclaims.due hclaims.later
  refine ⟨?_, ?_, ?_, ?_⟩
  · rw [hmore, List.map_append, ← h.runs]
    rfl
  · rw [hmore, List.map_append, ← h.tasks]
    rfl
  · rw [hmore]
    intro d' hd' r hr hid
    obtain ⟨old, hold, rfl⟩ := List.mem_map.mp hr
    have hoccurrence : old.id = d.schedule.id → d'.occurrence ≤ d.occurrence := by
      intro hclaimed
      rw [if_pos hclaimed] at hid
      rcases List.mem_append.mp hd' with hearlier | hthis
      · exact Nat.le_of_lt (hbefore d' hearlier (hid.symm.trans hclaimed))
      · rw [List.mem_singleton.mp hthis]
    by_cases hclaimed : old.id = d.schedule.id
    · rw [if_pos hclaimed]
      exact Nat.lt_of_le_of_lt (hoccurrence hclaimed) hmoved
    · rw [if_neg hclaimed] at hid ⊢
      rcases List.mem_append.mp hd' with hearlier | hthis
      · exact h.later d' hearlier old hold hid
      · rw [List.mem_singleton.mp hthis] at hid
        exact absurd hid hclaimed
  · rw [hmore, List.pairwise_append]
    refine ⟨h.once, List.pairwise_singleton .., fun d' hd' other hother hid => ?_⟩
    rw [List.mem_singleton.mp hother] at hid ⊢
    exact Nat.ne_of_lt (hbefore d' hd' hid)

/-- A commit that sets nothing back keeps every schedule ahead. -/
theorem Ahead.commit (h : Ahead s log) (hasserts : Asserts P s log held t)
    (hahead : setsBack P log t = false)
    (hstatement : (dispatchService P).next t.state = .commit) :
    Ahead (view t.changes s) (log ++ [t.state]) := by
  cases hasserts.commits hstatement with
  | edit call snap ws hstate hsnap hbody hedits =>
      exact h.edit hstate hsnap hbody hedits hahead
  | dispatch d hstate hchanges hclaims =>
      rw [hstate, hchanges]
      exact h.dispatch hclaims

end Transactions

/-! ### Every step -/

section Runs

variable [DecidableEq Value] [DecidableEq ι] {P : TriggerPorts Value}
  {p p' : Dispatching Value ι} {e : DispatchEvent Value ι} {events : List (DispatchEvent Value ι)}

/-- The rows of no workflow. -/
def Dispatching.start (Value ι : Type) : Dispatching Value ι := Pool.start {}

/-- What every open transaction knows, in every run. -/
theorem asserts_of_run (hnext : ∀ cron base due, P.getNext cron base = some due → base < due)
    (hrun : Trace.run (poolStep (dispatchService P)) (Dispatching.start Value ι) events = some p) :
    ∀ i t, p.opened i = some t → Asserts P p.committed p.log (p.held i) t := by
  have hkeeps := keeps_asserts (P := P) hnext (I := fun _ _ => True)
    (G := fun _ _ _ _ => True) fun _ _ _ _ _ _ _ _ => trivial
  refine (pool_rule hkeeps trivial hrun fun before e after _ q _ => ?_).2.txns
  cases e with
  | begin i call => trivial
  | step i => exact fun _ _ => trivial
  | abort i => trivial

/-- A step commits nothing, an edit, or a dispatch. -/
theorem settles_step (hasserts : ∀ i t, p.opened i = some t →
      Asserts P p.committed p.log (p.held i) t)
    (hstep : poolStep (dispatchService P) p e = some p') : Settles p p' := by
  cases poolStep_moves hstep with
  | begin i call hclosed => exact .quiet rfl rfl
  | read i t k hopen hstatement => exact .quiet rfl rfl
  | lock i t locks run state f hopen hstatement hfree hrun => exact .quiet rfl rfl
  | ended e i t hopen hend => exact .quiet rfl rfl
  | commit i t hopen hstatement =>
      cases (hasserts i t hopen).commits hstatement with
      | edit call snap ws hstate hsnap hbody hedits =>
          obtain ⟨hruns, htasks, -⟩ := hedits p.committed
          exact .edited call (congrArg (fun state => p.log ++ [state]) hstate) hruns htasks
      | dispatch d hstate hchanges hclaims =>
          exact .dispatched d (congrArg (fun state => p.log ++ [state]) hstate) hclaims.mem
            hclaims.due hclaims.later (hchanges p.committed)

/-- In a run without a publish that sets its schedule back, every schedule stays ahead. -/
theorem ahead_of_run (hnext : ∀ cron base due, P.getNext cron base = some due → base < due)
    (hrun : Trace.run (poolStep (dispatchService P)) (Dispatching.start Value ι) events = some p)
    (halong : Trace.Along (poolStep (dispatchService P)) (fun p e => overtakes P p e = false)
      (Dispatching.start Value ι) events) :
    Ahead p.committed p.log := by
  have hkeeps := keeps_asserts (P := P) hnext (I := Ahead)
    (G := fun _ log _ t => setsBack P log t = false)
    fun _ _ _ _ hahead hasserts hback hstatement => hahead.commit hasserts hback hstatement
  have hinit : Ahead ({} : DispatchDb Value) [] :=
    ⟨rfl, rfl, fun _ hd => absurd hd List.not_mem_nil, List.Pairwise.nil⟩
  refine (pool_rule hkeeps hinit hrun fun before e after hsplit q hq => ?_).2.rows
  have hahead := halong before e after hsplit q hq
  cases e with
  | begin i call => trivial
  | step i =>
      intro t hopen
      simpa [overtakes, hopen] using hahead
  | abort i => trivial

/--
**One run per scheduled occurrence, as long as no publish commits behind a dispatch.**  In
every run of any number of dispatchers and of calls on one workflow, in any order of their
statements and with any failures: each step commits nothing, an edit that makes no run, or
a dispatch as a whole, with its schedule moved on, its run and its task, and the schedule
then due later than the clock of the dispatch.  And as long as no publish sets a schedule
to a time at or before an occurrence of it that was dispatched, no two runs of a schedule
are for one occurrence.
-/
theorem one_run_per_occurrence
    (hnext : ∀ cron base due, P.getNext cron base = some due → base < due)
    (hrun : Trace.run (poolStep (dispatchService P)) (Dispatching.start Value ι) events = some p) :
    Trace.Along (poolStep (dispatchService P))
        (fun q e => ∀ q', poolStep (dispatchService P) q e = some q' → Settles q q')
        (Dispatching.start Value ι) events ∧
      (Trace.Along (poolStep (dispatchService P)) (fun q e => overtakes P q e = false)
          (Dispatching.start Value ι) events →
        Trace.Visits (poolStep (dispatchService P)) OncePerOccurrence (Dispatching.start Value ι)
          events) := by
  constructor
  · intro before e after _ q hq q' hstep
    exact settles_step (asserts_of_run hnext hq) hstep
  · intro halong before after hsplit q hq
    subst hsplit
    have hahead := ahead_of_run hnext hq halong.of_append
    exact ⟨hahead.runs, hahead.tasks, hahead.once⟩

end Runs

/-! ### A publish behind a dispatch -/

/-- A call from its beginning to its commit. -/
def wholeDispatch {ι : Type} (i : ι) (call : DispatchCall Value) (statements : Nat) :
    List (DispatchEvent Value ι) :=
  .begin i call :: List.replicate (statements + 2) (.step i)

/-- A schedule for every minute is published at zero, and edited. -/
def everyMinute : List (DispatchEvent String Nat) :=
  wholeDispatch 0 (.edit (.replaceDraft ⟨1, 1, 1⟩ 1 scheduleGraph)) 6 ++
    wholeDispatch 1 (.edit (.publish "first" 1 0)) 3 ++
    wholeDispatch 2 (.edit (.replaceDraft ⟨2, 2, 1⟩ 1 scheduleGraph)) 10

/-- The first minute is dispatched, and then the new version published. -/
def dispatchFirst : List (DispatchEvent String Nat) :=
  everyMinute ++ wholeDispatch 3 (.dispatch 1 0 1) 3 ++
    wholeDispatch 4 (.edit (.publish "second" 2 1)) 3 ++ wholeDispatch 5 (.dispatch 2 0 2) 3

/-- One after the other, each minute has its run. -/
theorem dispatchFirst_once :
    Trace.Visits (poolStep (dispatchService minutePorts)) OncePerOccurrence
      (Dispatching.start String Nat) dispatchFirst := by
  have heval : (Trace.run (poolStep (dispatchService minutePorts)) (Dispatching.start String Nat)
      dispatchFirst).isSome = true := by
    decide +kernel
  obtain ⟨p, hrun⟩ := Option.isSome_iff_exists.mp heval
  exact (one_run_per_occurrence minutePorts_later hrun).2 (by decide +kernel)

/-- The publish has read its snapshot and the clock, at zero; the first minute is dispatched
at one; the publish commits, and another dispatcher wakes at one. -/
def publishBehind : List (DispatchEvent String Nat) :=
  everyMinute ++ [.begin 3 (.edit (.publish "second" 2 0)), .step 3] ++
    wholeDispatch 4 (.dispatch 1 0 1) 3 ++ List.replicate 4 (.step 3) ++
    wholeDispatch 5 (.dispatch 1 0 2) 3

/-- The times at which the clock is read, in order. -/
def clockReadings {ι : Type} (events : List (DispatchEvent Value ι)) : List Nat :=
  events.filterMap fun
    | .begin _ (.edit (.publish _ _ now)) => some now
    | .begin _ (.dispatch now _ _) => some now
    | _ => none

/-- The clock never runs back, and the first minute has two runs. -/
theorem publishBehind_two_runs :
    (clockReadings publishBehind).Pairwise (· ≤ ·) ∧
      ∃ p, Trace.run (poolStep (dispatchService minutePorts)) (Dispatching.start String Nat)
          publishBehind = some p ∧
        p.committed.runs = [⟨1, 1, 1⟩, ⟨2, 2, 1⟩] ∧
        ¬ Trace.Visits (poolStep (dispatchService minutePorts)) OncePerOccurrence
          (Dispatching.start String Nat) publishBehind := by
  refine ⟨by decide, ?_⟩
  have heval : (Trace.run (poolStep (dispatchService minutePorts)) (Dispatching.start String Nat)
      publishBehind).map (fun p => (p.committed.runs,
        (dispatches p.log).map fun d => (d.schedule.id, d.run.scheduledFor))) =
        some ([⟨1, 1, 1⟩, ⟨2, 2, 1⟩], [(1, 1), (1, 1)]) := by
    decide +kernel
  obtain ⟨p, hrun, hvalues⟩ := Option.map_eq_some_iff.mp heval
  obtain ⟨hruns, hpairs⟩ := Prod.mk.inj hvalues
  refine ⟨p, hrun, hruns, fun hvisits => ?_⟩
  have honce := (hvisits.last hrun).once
  have hall : ((dispatches p.log).map fun d => (d.schedule.id, d.run.scheduledFor)).Pairwise
      fun x y => x.1 = y.1 → x.2 ≠ y.2 := List.pairwise_map.mpr honce
  rw [hpairs] at hall
  revert hall
  decide

end Orqent
