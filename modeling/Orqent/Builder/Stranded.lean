/-
A page that publishes what it has saved.

A new draft starts at revision 1.  The page asks for it after the publication, and loads it
if its revision is not the one it has loaded.  A page that was opened on a draft of revision
1, as that of every new workflow is, and has saved since, therefore takes the new draft for
the one it has: it goes on at the revision of the draft that was published, and the server
refuses whatever it sends.  Only opening the page anew ends this.
-/
import Orqent.Builder.Saving

namespace Orqent.Builder

open Trace

variable {Config ι : Type}

/-! ### The editor alone -/

/-- It happens at this page, or to a request of it, or to one that was given up; and the page is
not opened anew. -/
def Alone (i : ι) : SiteEvent ι Config → Prop
  | .page _ (.mount ..) => False
  | .page j _ | .serveDraft j | .serve j _ | .failDraft j | .fail j _ => j = i
  | .serveLate _ | .readDraft => True

/-- The server takes a save. -/
def Taken (P : Setting Config) (s : Site ι Config) (e : SiteEvent ι Config) : Prop :=
  ∃ call drafts, s.taking e = some call ∧ s.saved P call = some drafts

/-- A save names a revision other than the first, and was not taken. -/
def Task.Behind : Task (Content Config) → Prop
  | .saveSent call _ => call.revision ≠ 1
  | .saveAnswered _ reply => reply = none
  | _ => True

/-- The page has loaded revision 1 and is past it; what it has sent names a later revision, and
what it is being given is revision 1. -/
structure Page.Behind (p : Page Config) : Prop where
  loaded : p.loaded = some 1
  past : p.store.revision ≠ 1
  tasks : ∀ m ∈ p.mutations, m.task.Behind
  given : ∀ r, p.fetch = some (.answered (some r)) → r.revision = 1

/-- The draft is at revision 1, and the page takes it for the one it has. -/
structure Stranded (i : ι) (g : Content Config) (s : Site ι Config) : Prop where
  behind : (s.pages i).Behind
  late : ∀ task ∈ s.late, task.Behind
  revision : s.current.revision = 1
  graph : s.current.graph = g

section Pages

variable [EmptyCollection Config] {P : Setting Config} {p p' : Page Config} {k : Nat}
  {m : Mutation (Content Config)} {task : Task (Content Config)}

omit [EmptyCollection Config] in
theorem Page.Behind.begin (h : p.Behind) (htask : task.Behind) : (p.begin task).Behind := by
  refine ⟨h.loaded, h.past, fun m hm => ?_, h.given⟩
  rcases List.mem_append.mp hm with hold | hnew
  · exact h.tasks m hold
  · obtain rfl := List.mem_singleton.mp hnew
    exact htask

omit [EmptyCollection Config] in
theorem Page.Behind.putTask (h : p.Behind) (htask : task.Behind) :
    (p.putTask k m task).Behind := by
  refine ⟨h.loaded, h.past, fun m' hm => ?_, h.given⟩
  rcases List.mem_or_eq_of_mem_set hm with hold | rfl
  · exact h.tasks m' hold
  · exact htask

omit [EmptyCollection Config] in
/-- No save of the page was taken, and so an answer leaves its canvas where it is. -/
theorem behind_receive (h : p.Behind) (hm : m ∈ p.mutations) (hreceived : p.Receives k m p') :
    p'.Behind := by
  have hrefused : ∀ next saved, m.task ≠ .saveAnswered next (some saved) := by
    intro next saved htask
    have hbehind := h.tasks m hm
    rw [htask] at hbehind
    cases hbehind
  cases hreceived with
  | saved htask => exact absurd htask (hrefused _ _)
  | savedFirst htask => exact absurd htask (hrefused _ _)
  | ended htask hfetch =>
      refine ⟨h.loaded, h.past, fun m' hm' => h.tasks m' (List.mem_of_mem_eraseIdx hm'),
        fun r hr => ?_⟩
      rcases hfetch with rfl | rfl
      · exact h.given r hr
      · cases hr

/-- **The page stays behind**, whatever is done on it. -/
theorem behind_step {a : PageAct Config} (h : p.Behind)
    (ha : ∀ store cached, a ≠ .mount store cached) (hstep : p.step P a = some p') : p'.Behind := by
  cases a with
  | mount store cached => exact absurd rfl (ha store cached)
  | act a =>
      simp only [Page.step, Option.ite_none_right_eq_some, Option.some.injEq] at hstep
      obtain ⟨-, rfl⟩ := hstep
      exact ⟨h.loaded, by rw [revision_act]; exact h.past, h.tasks, h.given⟩
  | save =>
      simp only [Page.step, Option.ite_none_right_eq_some, Option.some.injEq] at hstep
      obtain ⟨-, rfl⟩ := hstep
      exact h.begin h.past
  | start errand =>
      simp only [Page.step, Option.ite_none_right_eq_some] at hstep
      obtain ⟨-, hstep⟩ := hstep
      split at hstep
      · obtain rfl := Option.some.inj hstep
        exact h.begin h.past
      · obtain rfl := Option.some.inj hstep
        exact h.begin trivial
  | refetch =>
      simp only [Page.step, Option.ite_none_right_eq_some, Option.some.injEq] at hstep
      obtain ⟨-, rfl⟩ := hstep
      exact ⟨h.loaded, h.past, h.tasks, fun r hc => (by cases hc)⟩
  | receiveDraft =>
      simp only [Page.step] at hstep
      split at hstep
      · rename_i reply hfetch
        obtain rfl := Option.some.inj hstep
        cases reply with
        | none => exact ⟨h.loaded, h.past, h.tasks, fun r hc => (by cases hc)⟩
        | some draft =>
            -- The draft that arrives has the revision the page has loaded.
            have hsame : p.gotDraft P (some draft) =
                { p with fetch := none, data := some draft } := by
              refine if_pos (Or.inr ?_)
              rw [h.given draft hfetch]
              exact h.loaded
            rw [hsame]
            exact ⟨h.loaded, h.past, h.tasks, fun r hc => (by cases hc)⟩
      · cases hstep
  | receive k =>
      obtain ⟨m, hm, hreceived⟩ := Option.bind_eq_some_iff.mp hstep
      exact behind_receive h (List.mem_of_getElem? hm) (Page.receives_of_received hreceived)

end Pages

section Runs

variable [DecidableEq ι] [EmptyCollection Config] {P : Setting Config} {s s' t : Site ι Config}
  {e : SiteEvent ι Config} {i : ι} {g : Content Config} {task task' : Task (Content Config)}

omit [EmptyCollection Config] in
theorem Stranded.put (h : Stranded i g s) {p : Page Config} (hp : p.Behind)
    (hpages : s'.pages = (s.putPage i p).pages) (hlate : ∀ task ∈ s'.late, task.Behind)
    (hcurrent : s'.current = s.current) : Stranded i g s' := by
  refine ⟨?_, hlate, by rw [hcurrent]; exact h.revision, by rw [hcurrent]; exact h.graph⟩
  rw [hpages, Site.pages_putPage, if_pos rfl]
  exact hp

omit [DecidableEq ι] [EmptyCollection Config] in
/-- The server takes no save that names a later revision. -/
theorem Stranded.refuses (h : Stranded i g s) {call : SaveCall (Content Config)}
    (hcall : call.revision ≠ 1) : s.saved P call = none := by
  refine Option.eq_none_iff_forall_ne_some.mpr fun drafts hsaved => ?_
  have hrevision := (saved_current hsaved).1
  rw [h.revision] at hrevision
  exact hcall hrevision.symm

omit [DecidableEq ι] [EmptyCollection Config] in
/-- What the server does with a request leaves the draft as it is: a save it refuses, and what
it publishes becomes the new draft, at revision 1. -/
theorem Stranded.serves (h : Stranded i g s) (htask : task.Behind)
    (hserves : s.Serves P task task' s') :
    s'.pages = s.pages ∧ s'.late = s.late ∧ s'.current = s.current ∧ task'.Behind := by
  cases hserves with
  | saved hsaved =>
      rw [h.refuses htask] at hsaved
      cases hsaved
  | refused hrefused => exact ⟨rfl, rfl, rfl, rfl⟩
  | validated => exact ⟨rfl, rfl, rfl, trivial⟩
  | published hpublish =>
      refine ⟨rfl, rfl, ?_, trivial⟩
      rw [Site.current, (Drafts.current_publish (.blank Config) hpublish).2]
      show (⟨1, s.current.graph⟩ : Draft (Content Config)) = s.current
      rw [← h.revision]
  | unpublished hinvalid => exact ⟨rfl, rfl, rfl, trivial⟩

omit [DecidableEq ι] [EmptyCollection Config] in
/-- No save of the page is taken. -/
theorem Stranded.not_taken (h : Stranded i g s) (halone : Alone i e) : ¬ Taken P s e := by
  rintro ⟨call, drafts, htaking, hsaved⟩
  suffices hcall : call.revision ≠ 1 by
    rw [h.refuses hcall] at hsaved
    cases hsaved
  unfold Site.taking at htaking
  split at htaking
  · rename_i j k
    obtain rfl : j = i := halone
    split at htaking
    · rename_i call' next orphan hm
      obtain rfl := Option.some.inj htaking
      exact h.behind.tasks _ (List.mem_of_getElem? hm)
    · cases htaking
  · rename_i k
    split at htaking
    · rename_i call' next hlate
      obtain rfl := Option.some.inj htaking
      exact h.late _ (List.mem_of_getElem? hlate)
    · cases htaking
  · cases htaking

/-- **Nothing that the page does brings it back in step.** -/
theorem Stranded.step (h : Stranded i g s) (halone : Alone i e) (hstep : s.step P e = some s') :
    Stranded i g s' := by
  cases e with
  | page j a =>
      obtain ⟨p, hp, rfl⟩ := Option.map_eq_some_iff.mp hstep
      have hmount : ∀ store cached, a ≠ .mount store cached := by
        rintro store cached rfl
        exact halone
      obtain rfl : j = i := by
        cases a with
        | mount store cached => exact absurd rfl (hmount store cached)
        | _ => exact halone
      exact h.put (behind_step h.behind hmount hp) rfl h.late rfl
  | serveDraft j =>
      obtain rfl : j = i := halone
      simp only [Site.step] at hstep
      split at hstep
      · obtain rfl := Option.some.inj hstep
        have hgiven : Page.Behind
            { s.pages j with fetch := some (.answered (some s.served)) } := by
          refine ⟨h.behind.loaded, h.behind.past, h.behind.tasks, fun r hr => ?_⟩
          obtain rfl := Option.some.inj (Fetch.answered.inj (Option.some.inj hr))
          exact h.revision
        exact h.put hgiven rfl h.late rfl
      · cases hstep
  | serve j k =>
      obtain rfl : j = i := halone
      obtain ⟨m, hm, hserved⟩ := Option.bind_eq_some_iff.mp hstep
      obtain ⟨⟨task, after⟩, hserve, rfl⟩ := Option.map_eq_some_iff.mp hserved
      obtain ⟨hpages, hlate, hcurrent, htask⟩ :=
        h.serves (h.behind.tasks m (List.mem_of_getElem? hm)) (Site.serves_of_serveTask hserve)
      refine h.put (h.behind.putTask (k := k) (m := m) htask) ?_ (hlate ▸ h.late) hcurrent
      show Function.update after.pages j _ = Function.update s.pages j _
      rw [hpages]
  | serveLate k =>
      obtain ⟨task, hlate, hserved⟩ := Option.bind_eq_some_iff.mp hstep
      obtain ⟨⟨task', after⟩, hserve, rfl⟩ := Option.map_eq_some_iff.mp hserved
      obtain ⟨hpages, -, hcurrent, -⟩ :=
        h.serves (h.late task (List.mem_of_getElem? hlate)) (Site.serves_of_serveTask hserve)
      refine ⟨hpages ▸ h.behind, fun t ht => h.late t (List.mem_of_mem_eraseIdx ht), ?_, ?_⟩
      · show after.current.revision = 1
        rw [hcurrent]
        exact h.revision
      · show after.current.graph = g
        rw [hcurrent]
        exact h.graph
  | readDraft =>
      obtain rfl := Option.some.inj hstep
      exact ⟨h.behind, h.late, h.revision, h.graph⟩
  | failDraft j =>
      obtain rfl : j = i := halone
      simp only [Site.step, Option.ite_none_right_eq_some, Option.some.injEq] at hstep
      obtain ⟨-, rfl⟩ := hstep
      have hfailed : Page.Behind { s.pages j with fetch := some (.answered none) } :=
        ⟨h.behind.loaded, h.behind.past, h.behind.tasks, fun r hc => (by cases hc)⟩
      exact h.put hfailed rfl h.late rfl
  | fail j k =>
      obtain rfl : j = i := halone
      obtain ⟨m, hm, rfl⟩ := Option.map_eq_some_iff.mp hstep
      have htask := h.behind.tasks m (List.mem_of_getElem? hm)
      have hfailed : m.task.failed.Behind := by
        cases m.task with
        | saveSent call next => exact rfl
        | saveAnswered next reply => exact rfl
        | errandSent errand => exact trivial
        | errandAnswered errand ok => exact trivial
      refine h.put (h.behind.putTask (k := k) (m := m) hfailed) rfl (fun t ht => ?_) rfl
      dsimp only at ht
      split at ht
      · rcases List.mem_append.mp ht with hold | hnew
        · exact h.late t hold
        · obtain rfl := List.mem_singleton.mp hnew
          exact htask
      · exact h.late t ht

/-- A publication by a page that has saved what it loaded at revision 1. -/
theorem stranded_of_published {orphan : Bool}
    (hloaded : (s.pages i).loaded = some 1) (hpast : (s.pages i).store.revision ≠ 1)
    (hidle : (s.pages i).mutations = [⟨.errandSent .publish, orphan⟩])
    (hfetch : (s.pages i).fetch = none) (hlate : s.late = [])
    (hstep : s.step P (.serve i 0) = some s') (hpublished : s'.published = s.published + 1) :
    Stranded i s.current.graph s' := by
  obtain ⟨m, hm, hserved⟩ := Option.bind_eq_some_iff.mp hstep
  obtain ⟨⟨task, after⟩, hserve, rfl⟩ := Option.map_eq_some_iff.mp hserved
  obtain rfl : m = ⟨.errandSent .publish, orphan⟩ := by
    rw [hidle] at hm
    exact (Option.some.inj hm).symm
  have hbehind : (s.pages i).Behind := by
    refine ⟨hloaded, hpast, fun m hm => ?_, fun r hr => ?_⟩
    · rw [hidle] at hm
      obtain rfl := List.mem_singleton.mp hm
      exact trivial
    · rw [hfetch] at hr
      cases hr
  cases Site.serves_of_serveTask hserve with
  | published hpublish =>
      have hcurrent := (Drafts.current_publish (.blank Config) hpublish).2
      refine ⟨?_, fun t ht => ?_, by rw [Site.current, Site.drafts_putPage, hcurrent],
        by rw [Site.current, Site.drafts_putPage, hcurrent]; rfl⟩
      · rw [Site.pages_putPage, if_pos rfl]
        exact hbehind.putTask trivial
      · have ht : t ∈ s.late := ht
        rw [hlate] at ht
        cases ht
  | unpublished hinvalid => simp at hpublished

/--
**After such a publication nothing is saved any more.**  A page has loaded its draft at revision
1, has saved it since, and publishes, with no other request under way.  Whatever is then done on
this page, however its requests end, and however often the draft is asked for: until it is opened
anew, and while nobody else saves or publishes, the server takes no save of it, and the content of
the draft stays what was published.
-/
theorem never_saves_again {orphan : Bool} (hloaded : (s.pages i).loaded = some 1)
    (hpast : (s.pages i).store.revision ≠ 1)
    (hidle : (s.pages i).mutations = [⟨.errandSent .publish, orphan⟩])
    (hfetch : (s.pages i).fetch = none) (hlate : s.late = [])
    (hpublish : s.step P (.serve i 0) = some s') (hpublished : s'.published = s.published + 1)
    {rest : List (SiteEvent ι Config)} (halone : ∀ e ∈ rest, Alone i e)
    (hrun : run (Site.step P) s' rest = some t) :
    Along (Site.step P) (fun s e => ¬ Taken P s e) s' rest ∧ t.current.graph = s.current.graph := by
  have hstart := stranded_of_published hloaded hpast hidle hfetch hlate hpublish hpublished
  have hall : Along (Site.step P) (fun _ e => Alone i e) s' rest := by
    intro before e after hsplit u _
    exact halone e (by rw [hsplit]; simp)
  obtain ⟨hend, hnever⟩ := along_of_invariant (I := Stranded i s.current.graph)
    (D := fun s e => ¬ Taken P s e) hstart (fun _ _ _ _ _ h ha _ => h.not_taken ha)
    (fun _ _ _ _ _ h ha hstep => h.step ha hstep) hrun hall
  exact ⟨hnever, hend.graph⟩

end Runs

/-! ### A page that meets it -/

/-- A page saves a node, and publishes it. -/
def publishing : List (SiteEvent Unit (List String)) :=
  opened () ++ savedNode () ++ [.page () (.start .publish)]

/-- It asks for the draft, adds another node, and sends it. -/
def goingOn : List (SiteEvent Unit (List String)) :=
  [.page () (.receive 0), .serveDraft (), .page () .receiveDraft] ++ sentNode () ++ [.serve () 0]

/-- The save that follows the publication is refused. -/
theorem goingOn_refused : ∃ s s' t : Site Unit (List String),
    run (Site.step trial) (trialSite Unit) publishing = some s ∧
      s.step trial (.serve () 0) = some s' ∧ run (Site.step trial) s' goingOn = some t ∧
      Along (Site.step trial) (fun s e => ¬ Taken trial s e) s' goingOn ∧
      t.current.graph = s.current.graph := by
  obtain ⟨s, hs⟩ : ∃ s, run (Site.step trial) (trialSite Unit) publishing = some s := ⟨_, rfl⟩
  obtain ⟨s', hs'⟩ : ∃ s', s.step trial (.serve () 0) = some s' := by
    obtain rfl := Option.some.inj hs
    exact ⟨_, rfl⟩
  obtain ⟨t, ht⟩ : ∃ t, run (Site.step trial) s' goingOn = some t := by
    obtain rfl := Option.some.inj hs
    obtain rfl := Option.some.inj hs'
    exact ⟨_, rfl⟩
  have hpage : (s.pages ()).loaded = some 1 ∧ (s.pages ()).store.revision ≠ 1 ∧
      s'.published = s.published + 1 := by
    obtain rfl := Option.some.inj hs
    obtain rfl := Option.some.inj hs'
    decide
  have hidle : (s.pages ()).mutations = [⟨.errandSent .publish, false⟩] ∧
      (s.pages ()).fetch = none ∧ s.late = [] := by
    obtain rfl := Option.some.inj hs
    exact ⟨rfl, rfl, rfl⟩
  have halone : ∀ e ∈ goingOn, Alone () e := by
    simp [goingOn, sentNode, Alone]
  exact ⟨s, s', t, hs, hs', ht, never_saves_again hpage.1 hpage.2.1 hidle.1 hidle.2.1 hidle.2.2
    hs' hpage.2.2 halone ht⟩

end Orqent.Builder
