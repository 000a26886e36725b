/-
What a save replaces.

Whatever a page was given is the draft as it still is, or it was given before a later save
or before a later publication (`Knows`); every step keeps this.  A save that is taken names
the revision of the draft there is, so the draft is the one its page was last given: nobody's
work is overwritten unseen.

It holds between two publications only, for revisions start again with every new draft; of
pages that were given a draft at all, for one whose request failed sends what its store still
holds; and as long as calls do not overlap.
-/
import Orqent.Builder.Page

namespace Orqent.Builder

open Trace

variable {Config ι : Type}

/-! ### What the pages know -/

/-- What a request that is under way knows of the draft. -/
def Task.Holds (r : Served (Content Config)) : Task (Content Config) → Prop
  | .saveSent call _ => call.base = some r
  | .saveAnswered _ reply => reply = some r
  | _ => False

/-- A save names the revision its page was at, and has sent a canvas. -/
def Task.Ok : Task (Content Config) → Prop
  | .saveSent call _ =>
      (∀ b, call.base = some b → b.revision = call.revision) ∧ call.graph.rounded = call.graph
  | .saveAnswered _ (some reply) => reply.graph.rounded = reply.graph
  | _ => True

namespace Page

/-- What the page was given, and has not forgotten. -/
def Holds (p : Page Config) (r : Served (Content Config)) : Prop :=
  p.base = some r ∨ p.data = some r ∨ p.fetch = some (.answered (some r)) ∨
    ∃ m ∈ p.mutations, m.task.Holds r

/-- A page is at the revision it was last given, and one that is loaded was given one. -/
structure Ok (p : Page Config) : Prop where
  inStep : ∀ b, p.base = some b → b.revision = p.store.revision
  shown : p.loaded.isSome = true → p.base.isSome = true
  tasks : ∀ m ∈ p.mutations, m.task.Ok

end Page

/-- What was given is the draft, or a later save or a later publication has changed it. -/
def Site.Knows (s : Site ι Config) (r : Served (Content Config)) : Prop :=
  r.published ≤ s.published ∧
    (r.published = s.published → r.revision < s.current.revision ∨ r.toDraft = s.current)

/-- What is held anywhere was given, and every page and request is in order. -/
structure SiteOk (s : Site ι Config) : Prop where
  known : ∀ i r, (s.pages i).Holds r → s.Knows r
  knownLate : ∀ task ∈ s.late, ∀ r, task.Holds r → s.Knows r
  pages : ∀ i, (s.pages i).Ok
  late : ∀ task ∈ s.late, task.Ok

section Pages

variable {P : Setting Config} {p p' : Page Config} {r : Served (Content Config)} {k : Nat}
  {m : Mutation (Content Config)} {task : Task (Content Config)}

theorem Page.Holds.of_effect (h : (p.effect P).Holds r) : p.Holds r := by
  unfold Page.effect at h
  split at h
  · exact h
  rename_i draft hdata
  split at h
  · exact h
  · rcases h with hb | hd | hf | hm
    · exact Or.inr (Or.inl (hdata.trans hb))
    · exact Or.inr (Or.inl hd)
    · exact Or.inr (Or.inr (Or.inl hf))
    · exact Or.inr (Or.inr (Or.inr hm))

theorem Page.Ok.effect (h : p.Ok) : (p.effect P).Ok := by
  unfold Page.effect
  split
  · exact h
  rename_i draft hdata
  split
  · exact h
  · exact ⟨fun _ hb => Option.some.inj hb ▸ rfl, fun _ => rfl, h.tasks⟩

theorem revision_act [EmptyCollection Config] (F : XyFlow Config) (store : BuilderState Config)
    (a : BuilderAction Config) : (store.act F a).revision = store.revision := by
  cases a with
  | connect c =>
      show (store.connect F c).revision = _
      unfold BuilderState.connect
      split <;> rfl
  | _ => rfl

theorem ok_saveCall (h : p.Ok) (next : Option Errand) :
    Task.Ok (.saveSent p.saveCall next) :=
  ⟨h.inStep, rounded_toGraph _⟩

theorem Page.Ok.begin (h : p.Ok) (htask : task.Ok) : (p.begin task).Ok := by
  refine ⟨h.inStep, h.shown, fun m hm => ?_⟩
  rcases List.mem_append.mp hm with hold | hnew
  · exact h.tasks m hold
  · obtain rfl := List.mem_singleton.mp hnew
    exact htask

theorem Page.Ok.putTask (h : p.Ok) (htask : task.Ok) : (p.putTask k m task).Ok := by
  refine ⟨h.inStep, h.shown, fun m' hm => ?_⟩
  rcases List.mem_or_eq_of_mem_set hm with hold | rfl
  · exact h.tasks m' hold
  · exact htask

theorem Page.Ok.drop (h : p.Ok) : (p.drop k).Ok :=
  ⟨h.inStep, h.shown, fun m hm => h.tasks m (List.mem_of_mem_eraseIdx hm)⟩

theorem Page.Holds.of_begin (h : (p.begin task).Holds r) (hheld : task.Holds r → p.Holds r) :
    p.Holds r := by
  rcases h with hb | hd | hf | ⟨m, hm, hr⟩
  · exact Or.inl hb
  · exact Or.inr (Or.inl hd)
  · exact Or.inr (Or.inr (Or.inl hf))
  · rcases List.mem_append.mp hm with hold | hnew
    · exact Or.inr (Or.inr (Or.inr ⟨m, hold, hr⟩))
    · obtain rfl := List.mem_singleton.mp hnew
      exact hheld hr

/-- What a page holds when a mutation has come further. -/
theorem Page.Holds.of_putTask (h : (p.putTask k m task).Holds r) : p.Holds r ∨ task.Holds r := by
  rcases h with hb | hd | hf | ⟨m', hm, hr⟩
  · exact Or.inl (Or.inl hb)
  · exact Or.inl (Or.inr (Or.inl hd))
  · exact Or.inl (Or.inr (Or.inr (Or.inl hf)))
  · rcases List.mem_or_eq_of_mem_set hm with hold | rfl
    · exact Or.inl (Or.inr (Or.inr (Or.inr ⟨m', hold, hr⟩)))
    · exact Or.inr hr

theorem Page.Holds.of_drop (h : (p.drop k).Holds r) : p.Holds r := by
  rcases h with hb | hd | hf | ⟨m, hm, hr⟩
  · exact Or.inl hb
  · exact Or.inr (Or.inl hd)
  · exact Or.inr (Or.inr (Or.inl hf))
  · exact Or.inr (Or.inr (Or.inr ⟨m, List.mem_of_mem_eraseIdx hm, hr⟩))

/-- What a page holds when the request for the draft has come further. -/
theorem Page.Holds.of_fetch {fetch : Option (Fetch (Content Config))}
    (h : Page.Holds { p with fetch } r) : p.Holds r ∨ fetch = some (.answered (some r)) := by
  rcases h with hb | hd | hf | hm
  · exact Or.inl (Or.inl hb)
  · exact Or.inl (Or.inr (Or.inl hd))
  · exact Or.inr hf
  · exact Or.inl (Or.inr (Or.inr (Or.inr hm)))

theorem Page.Ok.fetch (h : p.Ok) (fetch : Option (Fetch (Content Config))) :
    Page.Ok { p with fetch } := ⟨h.inStep, h.shown, h.tasks⟩

/-- A page that was given what it holds: an answer to a save tells it no more. -/
theorem Page.Holds.of_gotSaved {saved : Served (Content Config)}
    (h : (p.gotSaved saved).Holds r) (hsaved : p.Holds saved) : p.Holds r := by
  rcases h with hb | hd | hf | hm
  · exact Option.some.inj hb ▸ hsaved
  · exact Or.inr (Or.inl hd)
  · exact Or.inr (Or.inr (Or.inl hf))
  · exact Or.inr (Or.inr (Or.inr hm))

theorem Page.Ok.gotSaved (h : p.Ok) (saved : Served (Content Config)) : (p.gotSaved saved).Ok :=
  ⟨fun _ hb => Option.some.inj hb ▸ rfl, fun _ => rfl, h.tasks⟩

/-- The answer to a mutation keeps a page in order, and tells it what was on its way to it. -/
theorem page_receive (h : p.Ok) (hm : m ∈ p.mutations) (hreceived : p.Receives k m p') :
    p'.Ok ∧ ∀ r, p'.Holds r → p.Holds r := by
  have hheld : ∀ {next saved}, m.task = .saveAnswered next (some saved) → p.Holds saved :=
    fun htask => Or.inr (Or.inr (Or.inr ⟨m, hm, by rw [htask]; exact rfl⟩))
  cases hreceived with
  | saved htask =>
      exact ⟨(h.gotSaved _).drop, fun r hr => hr.of_drop.of_gotSaved (hheld htask)⟩
  | savedFirst htask =>
      refine ⟨(h.gotSaved _).putTask trivial, fun r hr => ?_⟩
      rcases hr.of_putTask with hr | hr
      · exact hr.of_gotSaved (hheld htask)
      · exact hr.elim
  | ended htask hfetch =>
      refine ⟨h.drop.fetch _, fun r hr => ?_⟩
      rcases hr.of_fetch with hr | hf
      · exact hr.of_drop
      · rcases hfetch with rfl | rfl
        · exact Or.inr (Or.inr (Or.inl hf))
        · cases hf

/-- A page that is opened anew has been given nothing yet, but what is under way to it. -/
theorem page_mount (h : p.Ok) (store : BuilderState Config) (cached : Bool) :
    (p.mount P store cached).Ok ∧ ∀ r, (p.mount P store cached).Holds r → p.Holds r := by
  have hfetch : ∀ (asked : Bool) r, (if asked then some .sent else p.fetch) =
      some (.answered (some r)) → p.fetch = some (.answered (some r)) := by
    intro asked r hr
    cases asked with
    | true => cases hr
    | false => exact hr
  refine ⟨Page.Ok.effect ⟨fun b hb => (by cases hb), fun hc => (by cases hc), fun m hm => ?_⟩,
    fun r hr => ?_⟩
  · obtain ⟨m', hm', rfl⟩ := List.mem_map.mp hm
    exact h.tasks m' hm'
  · rcases hr.of_effect with hb | hd | hf | ⟨m, hm, hr⟩
    · cases hb
    · split at hd
      · exact Or.inr (Or.inl hd)
      · cases hd
    · exact Or.inr (Or.inr (Or.inl (hfetch _ r hf)))
    · obtain ⟨m', hm', rfl⟩ := List.mem_map.mp hm
      exact Or.inr (Or.inr (Or.inr ⟨m', hm', hr⟩))

/-- The draft that arrives was under way to the page. -/
theorem page_gotDraft (h : p.Ok) {reply : Option (Served (Content Config))}
    (hfetch : p.fetch = some (.answered reply)) :
    (p.gotDraft P reply).Ok ∧ ∀ r, (p.gotDraft P reply).Holds r → p.Holds r := by
  cases reply with
  | none =>
      refine ⟨h.fetch none, fun r hr => ?_⟩
      exact hr.of_fetch.resolve_right fun hf => (by cases hf)
  | some draft =>
      have hgot : Page.Ok { p with fetch := none, data := some draft } :=
        ⟨h.inStep, h.shown, h.tasks⟩
      refine ⟨hgot.effect, fun r hr => ?_⟩
      rcases hr.of_effect with hb | hd | hf | hm
      · exact Or.inl hb
      · exact Or.inr (Or.inr (Or.inl (Option.some.inj hd ▸ hfetch)))
      · cases hf
      · exact Or.inr (Or.inr (Or.inr hm))

/-- **A page makes up nothing**, and keeps in step with what it was given. -/
theorem page_step [EmptyCollection Config] {a : PageAct Config} (h : p.Ok)
    (hstep : p.step P a = some p') : p'.Ok ∧ ∀ r, p'.Holds r → p.Holds r := by
  have hsent : ∀ next r, Task.Holds r (.saveSent p.saveCall next) → p.Holds r :=
    fun _ _ hr => Or.inl hr
  cases a with
  | mount store cached =>
      obtain rfl := Option.some.inj hstep
      exact page_mount h store cached
  | act a =>
      simp only [Page.step, Option.ite_none_right_eq_some, Option.some.injEq] at hstep
      obtain ⟨-, rfl⟩ := hstep
      refine ⟨⟨fun b hb => ?_, h.shown, h.tasks⟩, fun r hr => hr⟩
      rw [revision_act]
      exact h.inStep b hb
  | save =>
      simp only [Page.step, Option.ite_none_right_eq_some, Option.some.injEq] at hstep
      obtain ⟨-, rfl⟩ := hstep
      exact ⟨h.begin (ok_saveCall h none), fun r hr => hr.of_begin (hsent none r)⟩
  | start errand =>
      simp only [Page.step, Option.ite_none_right_eq_some] at hstep
      obtain ⟨-, hstep⟩ := hstep
      split at hstep
      · obtain rfl := Option.some.inj hstep
        exact ⟨h.begin (ok_saveCall h _), fun r hr => hr.of_begin (hsent _ r)⟩
      · obtain rfl := Option.some.inj hstep
        exact ⟨h.begin trivial, fun r hr => hr.of_begin False.elim⟩
  | refetch =>
      simp only [Page.step, Option.ite_none_right_eq_some, Option.some.injEq] at hstep
      obtain ⟨-, rfl⟩ := hstep
      refine ⟨h.fetch _, fun r hr => ?_⟩
      exact hr.of_fetch.resolve_right fun hf => (by cases hf)
  | receiveDraft =>
      simp only [Page.step] at hstep
      split at hstep
      · rename_i reply hfetch
        obtain rfl := Option.some.inj hstep
        exact page_gotDraft h hfetch
      · cases hstep
  | receive k =>
      obtain ⟨m, hm, hreceived⟩ := Option.bind_eq_some_iff.mp hstep
      exact page_receive h (List.mem_of_getElem? hm) (Page.receives_of_received hreceived)

end Pages

/-! ### What the server's calls change -/

section Calls

variable {P : Setting Config} {s s' : Site ι Config} {r : Served (Content Config)}
  {task task' : Task (Content Config)}

theorem Site.Knows.same (h : s.Knows r) (hcurrent : s'.current = s.current)
    (hpublished : s'.published = s.published) : s'.Knows r := by
  unfold Site.Knows
  rw [hcurrent, hpublished]
  exact h

theorem Site.Knows.saved (h : s.Knows r) (hpublished : s'.published = s.published)
    (hrevision : s'.current.revision = s.current.revision + 1) : s'.Knows r := by
  obtain ⟨hle, hcurrent⟩ := h
  refine ⟨hpublished ▸ hle, fun heq => Or.inl ?_⟩
  rw [hrevision]
  rcases hcurrent (heq.trans hpublished) with hlt | hsame
  · omega
  · rw [← hsame]
    exact Nat.lt_succ_self _

theorem Site.Knows.later (h : s.Knows r) (hpublished : s'.published = s.published + 1) :
    s'.Knows r := by
  refine ⟨hpublished ▸ h.1.trans (Nat.le_succ _), fun heq => ?_⟩
  have hle := h.1
  omega

theorem knows_served : s.Knows s.served := ⟨le_refl _, fun _ => Or.inr rfl⟩

theorem saved_current {call : SaveCall (Content Config)} {drafts : Drafts (Content Config)}
    (h : s.saved P call = some drafts) : s.current.revision = call.revision ∧
      drafts.current (.blank Config) = ⟨call.revision + 1, call.graph⟩ := by
  unfold Site.saved at h
  split at h
  · exact Drafts.current_replaceDraft h
  · cases h

/-- **What the server does with a request** keeps what is known, and its answer is the draft. -/
theorem serves_knows (h : s.Serves P task task' s') (hok : task.Ok) :
    s'.pages = s.pages ∧ s'.late = s.late ∧ (∀ r, s.Knows r → s'.Knows r) ∧ task'.Ok ∧
      ∀ r, task'.Holds r → s'.Knows r := by
  cases h with
  | saved hsaved =>
      obtain ⟨hrevision, hcurrent⟩ := saved_current hsaved
      refine ⟨rfl, rfl, fun r hr => hr.saved rfl ?_, hok.2, fun r hr => ?_⟩
      · rw [Site.current, hcurrent, hrevision]
      · obtain rfl := Option.some.inj hr
        exact ⟨le_refl _, fun _ => Or.inr hcurrent.symm⟩
  | refused hrefused => exact ⟨rfl, rfl, fun r hr => hr, trivial, fun r hr => (by cases hr)⟩
  | validated => exact ⟨rfl, rfl, fun r hr => hr.same rfl rfl, trivial, fun r hr => hr.elim⟩
  | published hpublish =>
      exact ⟨rfl, rfl, fun r hr => hr.later rfl, trivial, fun r hr => hr.elim⟩
  | unpublished hinvalid => exact ⟨rfl, rfl, fun r hr => hr, trivial, fun r hr => hr.elim⟩

theorem Task.Ok.failed (h : task.Ok) : task.failed.Ok := by
  cases task <;> exact trivial

theorem Task.not_holds_failed : ¬ task.failed.Holds r := by
  cases task with
  | saveSent call next => exact fun hc => (by cases hc)
  | saveAnswered next reply => exact fun hc => (by cases hc)
  | errandSent errand => exact id
  | errandAnswered errand ok => exact id

/-- A step at one page, and what it leaves of the draft. -/
theorem SiteOk.putPage [DecidableEq ι] (h : SiteOk s) {i : ι} {p : Page Config}
    (hpages : s'.pages = (s.putPage i p).pages) (hlate : s'.late = s.late) (hok : p.Ok)
    (hheld : ∀ r, p.Holds r → (s.pages i).Holds r ∨ s'.Knows r)
    (hkeeps : ∀ r, s.Knows r → s'.Knows r) : SiteOk s' := by
  refine ⟨fun j r hr => ?_, fun task htask r hr => ?_, fun j => ?_, hlate ▸ h.late⟩
  · rw [hpages, Site.pages_putPage] at hr
    split at hr
    · rcases hheld r hr with hold | hnew
      · exact hkeeps r (h.known i r hold)
      · exact hnew
    · exact hkeeps r (h.known j r hr)
  · exact hkeeps r (h.knownLate task (hlate ▸ htask) r hr)
  · rw [hpages, Site.pages_putPage]
    split
    · exact hok
    · exact h.pages j

variable [DecidableEq ι] [EmptyCollection Config]

/-- **What the pages know they go on knowing**, whatever happens. -/
theorem SiteOk.step (h : SiteOk s) {e : SiteEvent ι Config} (hstep : s.step P e = some s') :
    SiteOk s' := by
  cases e with
  | page i a =>
      obtain ⟨p, hp, rfl⟩ := Option.map_eq_some_iff.mp hstep
      obtain ⟨hok, hheld⟩ := page_step (h.pages i) hp
      exact h.putPage rfl rfl hok (fun r hr => Or.inl (hheld r hr)) fun r hr => hr
  | serveDraft i =>
      simp only [Site.step] at hstep
      split at hstep
      · obtain rfl := Option.some.inj hstep
        refine h.putPage rfl rfl ((h.pages i).fetch _) (fun r hr => ?_)
          fun r hr => hr.same rfl rfl
        refine hr.of_fetch.imp_right fun hf => ?_
        obtain rfl := Option.some.inj (Fetch.answered.inj (Option.some.inj hf))
        exact knows_served
      · cases hstep
  | serve i k =>
      obtain ⟨m, hm, hserved⟩ := Option.bind_eq_some_iff.mp hstep
      obtain ⟨⟨task, after⟩, hserve, rfl⟩ := Option.map_eq_some_iff.mp hserved
      obtain ⟨hpages, hlate, hkeeps, hok, hheld⟩ :=
        serves_knows (Site.serves_of_serveTask hserve)
          ((h.pages i).tasks m (List.mem_of_getElem? hm))
      refine h.putPage (i := i) (p := (s.pages i).putTask k m task) ?_ hlate
        ((h.pages i).putTask hok) (fun r hr => hr.of_putTask.imp_right (hheld r)) hkeeps
      show Function.update after.pages i _ = Function.update s.pages i _
      rw [hpages]
  | serveLate k =>
      obtain ⟨task, hlate, hserved⟩ := Option.bind_eq_some_iff.mp hstep
      obtain ⟨⟨task', after⟩, hserve, rfl⟩ := Option.map_eq_some_iff.mp hserved
      obtain ⟨hpages, -, hkeeps, -, -⟩ :=
        serves_knows (Site.serves_of_serveTask hserve) (h.late task (List.mem_of_getElem? hlate))
      refine ⟨fun j r hr => hkeeps r (h.known j r (hpages ▸ hr)), fun t ht r hr => ?_,
        fun j => hpages ▸ h.pages j, fun t ht => h.late t (List.mem_of_mem_eraseIdx ht)⟩
      exact hkeeps r (h.knownLate t (List.mem_of_mem_eraseIdx ht) r hr)
  | readDraft =>
      obtain rfl := Option.some.inj hstep
      exact ⟨fun i r hr => (h.known i r hr).same rfl rfl,
        fun t ht r hr => (h.knownLate t ht r hr).same rfl rfl, h.pages, h.late⟩
  | failDraft i =>
      simp only [Site.step, Option.ite_none_right_eq_some, Option.some.injEq] at hstep
      obtain ⟨-, rfl⟩ := hstep
      refine h.putPage rfl rfl ((h.pages i).fetch _) (fun r hr => Or.inl ?_) fun r hr => hr
      exact hr.of_fetch.resolve_right fun hf => by cases Fetch.answered.inj (Option.some.inj hf)
  | fail i k =>
      obtain ⟨m, hm, rfl⟩ := Option.map_eq_some_iff.mp hstep
      have hmem := List.mem_of_getElem? hm
      have hput : SiteOk (s.putPage i ((s.pages i).putTask k m m.task.failed)) := by
        refine h.putPage rfl rfl ((h.pages i).putTask ((h.pages i).tasks m hmem).failed)
          (fun r hr => Or.inl ?_) fun r hr => hr
        exact hr.of_putTask.resolve_right Task.not_holds_failed
      -- What is given up is still known to have been sent by its page.
      have hgiven : ∀ r, m.task.Holds r → s.Knows r := fun r hr =>
        h.known i r (Or.inr (Or.inr (Or.inr ⟨m, hmem, hr⟩)))
      refine ⟨hput.known, fun t ht r hr => ?_, hput.pages, fun t ht => ?_⟩
      · split at ht
        · rcases List.mem_append.mp ht with hold | hnew
          · exact h.knownLate t hold r hr
          · obtain rfl := List.mem_singleton.mp hnew
            exact hgiven r hr
        · exact h.knownLate t ht r hr
      · split at ht
        · rcases List.mem_append.mp ht with hold | hnew
          · exact h.late t hold
          · obtain rfl := List.mem_singleton.mp hnew
            exact (h.pages i).tasks m hmem
        · exact h.late t ht

omit [DecidableEq ι] [EmptyCollection Config] in
theorem siteOk_start (drafts : Drafts (Content Config)) (stores : ι → BuilderState Config) :
    SiteOk (Site.start drafts stores) where
  known := by
    intro i r hr
    rcases hr with hb | hd | hf | ⟨m, hm, -⟩
    · cases hb
    · cases hd
    · cases hf
    · cases hm
  knownLate := fun task htask => (by cases htask)
  pages := fun i => ⟨fun b hb => (by cases hb), fun hc => (by cases hc), fun m hm => (by cases hm)⟩
  late := fun task htask => (by cases htask)

theorem siteOk {drafts : Drafts (Content Config)} {stores : ι → BuilderState Config}
    {events : List (SiteEvent ι Config)}
    (h : run (Site.step P) (.start drafts stores) events = some s) : SiteOk s :=
  run_invariant (siteOk_start drafts stores) (fun _ _ _ hok hstep => hok.step hstep) h

omit [DecidableEq ι] [EmptyCollection Config] in
/-- What is taken up now was sent as it should be, and knows what its page knew. -/
theorem SiteOk.taking (h : SiteOk s) {e : SiteEvent ι Config} {call : SaveCall (Content Config)}
    (htaking : s.taking e = some call) : ∀ b, call.base = some b →
      b.revision = call.revision ∧ s.Knows b := by
  intro b hb
  unfold Site.taking at htaking
  split at htaking
  · rename_i i k
    split at htaking
    · rename_i call' next orphan hm
      obtain rfl := Option.some.inj htaking
      have hmem := List.mem_of_getElem? hm
      exact ⟨((h.pages i).tasks _ hmem).1 b hb,
        h.known i b (Or.inr (Or.inr (Or.inr ⟨_, hmem, hb⟩)))⟩
    · cases htaking
  · rename_i k
    split at htaking
    · rename_i call' next hlate
      obtain rfl := Option.some.inj htaking
      have hmem := List.mem_of_getElem? hlate
      exact ⟨(h.late _ hmem).1 b hb, h.knownLate _ hmem b hb⟩
    · cases htaking
  · cases htaking

/-! ### The theorem -/

/-- The save that is served now is taken only if the draft it replaces is what its page was last
given before it was sent, or a publication has come between. -/
def BuildsOn (P : Setting Config) (s : Site ι Config) (e : SiteEvent ι Config) : Prop :=
  ∀ call drafts, s.taking e = some call → s.saved P call = some drafts →
    ∀ b, call.base = some b → s.current.graph = b.graph ∨ b.published < s.published

/--
**A save overwrites nothing unseen.**  Whatever pages are open, and whatever they do, in any
order, as long as no two calls overlap: a save that the server takes replaces the draft its page
was last given before it sent the save, unless a version was published since or the page was
given none.  A page on which a draft was loaded was given one.
-/
theorem save_builds_on (P : Setting Config) (drafts : Drafts (Content Config))
    (stores : ι → BuilderState Config) (events : List (SiteEvent ι Config)) :
    Along (Site.step P) (BuildsOn P) (.start drafts stores) events ∧
      ∀ s, run (Site.step P) (.start drafts stores) events = some s → ∀ i,
        (s.pages i).loaded.isSome = true → (s.pages i).saveCall.base.isSome = true := by
  refine ⟨?_, fun s hrun i => ((siteOk hrun).pages i).shown⟩
  intro before e after hsplit s hrun call left htaking hsaved b hb
  obtain ⟨hrevision, hle, hcurrent⟩ := (siteOk hrun).taking htaking b hb
  rcases hle.lt_or_eq with hlt | heq
  · exact Or.inr hlt
  · left
    obtain ⟨hsame, -⟩ := saved_current hsaved
    rcases hcurrent heq with hlt | hdraft
    · omega
    · rw [← hdraft]

end Calls

/-! ### Two pages, and a publication between -/

section Trial

/-- A server that takes and publishes everything. -/
def trial : Setting (List String) where
  flow := plainFlow _
  catalogue := [⟨"core.log", 1⟩]
  accepts := fun _ => true
  valid := fun _ => true

/-- A new workflow. -/
def trialSite (ι : Type) : Site ι (List String) := Site.start {} fun _ => {}

variable {ι : Type}

/-- The draft arrives at a page. -/
def opened (i : ι) : List (SiteEvent ι (List String)) := [.serveDraft i, .page i .receiveDraft]

/-- A node is added, and the canvas is sent. -/
def sentNode (i : ι) : List (SiteEvent ι (List String)) :=
  [.page i (.act (.addNode ⟨"core.log", 1⟩ ⟨0, 0⟩)), .page i .save]

/-- The server takes the save, and its answer arrives. -/
def savedNode (i : ι) : List (SiteEvent ι (List String)) :=
  sentNode i ++ [.serve i 0, .page i (.receive 0)]

/-- A page saves a node; the next save is taken, and replaces what the first has left. -/
theorem save_builds_on_saved : ∃ (s : Site Unit (List String)) (call : SaveCall _)
    (drafts : Drafts _) (b : Served _),
    run (Site.step trial) (trialSite Unit) (opened () ++ savedNode () ++ sentNode ()) = some s ∧
      s.taking (.serve () 0) = some call ∧ s.saved trial call = some drafts ∧
      call.base = some b ∧ (s.current.graph = b.graph ∨ b.published < s.published) := by
  obtain ⟨s, hs⟩ : ∃ s, run (Site.step trial) (trialSite Unit)
    (opened () ++ savedNode () ++ sentNode ()) = some s := ⟨_, rfl⟩
  obtain ⟨call, drafts, b, htaking, hsaved, hb⟩ : ∃ call drafts b,
      s.taking (.serve () 0) = some call ∧ s.saved trial call = some drafts ∧
        call.base = some b := by
    obtain rfl := Option.some.inj hs
    exact ⟨_, _, _, rfl, rfl, rfl⟩
  exact ⟨s, call, drafts, b, hs, htaking, hsaved, hb,
    (save_builds_on trial {} (fun _ => {})
      (opened () ++ savedNode () ++ sentNode () ++ [.serve () 0])).1 _ _ [] rfl s hs call drafts
        htaking hsaved b hb⟩

/-- Both pages have the draft; one saves a node and publishes it, and then the other saves. -/
def crossed : List (SiteEvent Bool (List String)) :=
  opened true ++ opened false ++ savedNode true ++
    [.page true (.start .publish), .serve true 0] ++ sentNode false

/-- The save is taken, and overwrites a node its page has never been given. -/
theorem crossed_overwrites : ∃ s call drafts b,
    run (Site.step trial) (trialSite Bool) crossed = some s ∧
      s.taking (.serve false 0) = some call ∧ s.saved trial call = some drafts ∧
      call.base = some b ∧ s.current.graph ≠ b.graph := by
  refine ⟨_, _, _, _, rfl, rfl, rfl, rfl, fun hsame => ?_⟩
  exact absurd (congrArg (fun g => g.nodes.length) hsame) (by decide)

/-- The store holds another new workflow, and the request for the draft fails. -/
def leftover : List (SiteEvent Unit (List String)) :=
  [.failDraft (), .page () .receiveDraft] ++ sentNode ()

/-- The save is taken, and overwrites a draft its page was never given. -/
theorem leftover_overwrites : ∃ s call drafts,
    run (Site.step trial) (.start {} fun _ => { revision := 1 }) leftover = some s ∧
      s.taking (.serve () 0) = some call ∧ s.saved trial call = some drafts ∧
      call.base = none ∧ s.current.graph ≠ call.graph := by
  refine ⟨_, _, _, rfl, rfl, rfl, rfl, fun hsame => ?_⟩
  exact absurd (congrArg (fun g => g.nodes.length) hsame) (by decide)

end Trial

end Orqent.Builder
