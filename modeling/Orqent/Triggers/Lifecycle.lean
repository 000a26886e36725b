/-
Triggers follow the active version.

Here one call is served after another.  A publish with a webhook trigger points the
registration at it, one without leaves the registration where it was, in a version that
is no longer active; so an address is live exactly while the active version has the
trigger, and nothing has to be switched on or off.  The same goes for the schedule.

`Following` is what every history keeps.  What points at a node points into a published
version, which no edit touches: an edit is of the draft, or of a version that is not there
yet.
-/
import Orqent.Triggers.Service
import Orqent.Versions.Publishing

namespace Orqent

open LockStore

variable {Value : Type}

/-! ### Histories -/

/-- What a history shows. -/
inductive TriggerNote
  /-- A publish returned the token with this digest. -/
  | minted (digest : String)
  /-- The registration with this digest was revoked. -/
  | revoked (digest : String)
  /-- A publish at this time set the schedule. -/
  | scheduled (now : Nat)
deriving DecidableEq, Repr

/-- The digests of the tokens that were returned, in order. -/
def mintedIn (notes : List TriggerNote) : List String :=
  notes.filterMap fun
    | .minted digest => some digest
    | _ => none

/-- When the schedule was last set by a publish. -/
def lastScheduled (notes : List TriggerNote) : Option Nat :=
  (notes.filterMap fun
    | .scheduled now => some now
    | _ => none).getLast?

/-- What a call shows that was served on these rows. -/
def callNotes (P : TriggerPorts Value) (db : TriggerDb Value) : TriggerCall Value → List TriggerNote
  | .publish token _ now =>
      match db.tables.getDraft with
      | none => []
      | some (version, _) =>
          ((registerWebhook P token version db).2.map .minted).toList ++
            if (triggerNode scheduleTrigger (db.tables.graphs version)).isSome then
              [.scheduled now]
            else []
  | .revoke digest =>
      if digest ∈ db.registrations.map TriggerRegistration.tokenDigest then [.revoked digest]
      else []
  | _ => []

section Serve

variable [DecidableEq Value]

/-- Serve a call with nothing else going on; one that is refused changes nothing. -/
def serve (P : TriggerPorts Value) (x : TriggerDb Value × List TriggerNote)
    (call : TriggerCall Value) : TriggerDb Value × List TriggerNote :=
  match (call.body P x.1).bind fun ws => (triggerStore P).perform ws x.1 with
  | none => x
  | some db' => (db', x.2 ++ callNotes P x.1 call)

/-- A new workflow, after these calls. -/
def afterCalls (P : TriggerPorts Value) (calls : List (TriggerCall Value)) :
    TriggerDb Value × List TriggerNote :=
  calls.foldl (serve P) ({}, [])

end Serve

/-- Whether the active version has a node of this type. -/
def TriggerDb.publishes (db : TriggerDb Value) (nodeType : String) : Bool :=
  db.tables.activeVersionId.any fun version =>
    (triggerNode nodeType (db.tables.graphs version)).isSome

/-! ### The ids of a graph's nodes -/

/-- No two nodes of a graph have one id. -/
def Tables.DistinctIds (t : Tables Value) : Prop :=
  ∀ version, ((t.graphs version).nodes.map NodeRow.id).Nodup

/-- The node with an id is the one the join finds. -/
theorem joined_of_mem {rows : List (NodeRow Value)} (hids : (rows.map NodeRow.id).Nodup)
    {n : NodeRow Value} (hn : n ∈ rows) : joined rows n.id = some n := by
  obtain ⟨other, hother⟩ : ∃ other, joined rows n.id = some other := by
    rw [← Option.isSome_iff_exists, joined, List.find?_isSome]
    exact ⟨n, hn, by simp⟩
  have hid : other.id = n.id := by simpa using List.find?_some hother
  rw [hother, List.inj_on_of_nodup_map hids (List.mem_of_find?_eq_some hother) hn hid]

theorem triggerNode_mem {nodeType : String} {rows : GraphRows Value} {n : NodeRow Value}
    (h : triggerNode nodeType rows = some n) : n ∈ rows.nodes :=
  (List.mem_insertionSort _).mp (List.mem_of_find?_eq_some h)

section Ids

variable [DecidableEq Value] {registry : NodeRegistry Value} {t t' snap : Tables Value}
  {ids : NewIds}

theorem distinctIds_replaceGraph (h : t.DistinctIds) {id : Nat} {g : WorkflowGraph Value}
    (hperform : (versionStore registry).perform (replaceGraph id ids g) t = some t') :
    t'.DistinctIds := by
  rw [perform_replaceGraph, Option.some.injEq] at hperform
  subst hperform
  intro version
  rw [Tables.graphs_onGraph]
  by_cases hversion : version = id
  · subst hversion
    rw [Function.update_self]
    show ((nodeRows ids.node g.nodes).map NodeRow.id).Nodup
    rw [nodeRows_ids]
    exact List.nodup_range'
  · rw [Function.update_of_ne hversion]
    exact h version

theorem distinctIds_insertVersion (h : t.DistinctIds) {id : Nat}
    (hperform : (versionStore registry).perform [.insertVersion id] t = some t') :
    t'.DistinctIds := by
  obtain ⟨-, rfl⟩ := perform_insertVersion.mp hperform
  exact h

theorem distinctIds_ensureDraft (h : t.DistinctIds) {draft : EnsuredDraft Value}
    (hdraft : ensureDraft ids snap = some draft)
    (hperform : (versionStore registry).perform draft.statements t = some t') :
    t'.DistinctIds := by
  unfold ensureDraft at hdraft
  split at hdraft
  · obtain rfl := Option.some.inj hdraft
    exact Option.some.inj hperform ▸ h
  · split at hdraft
    · obtain rfl := Option.some.inj hdraft
      exact distinctIds_insertVersion h hperform
    · obtain ⟨copy, -, rfl⟩ := Option.map_eq_some_iff.mp hdraft
      obtain ⟨mid, hinsert, hcopy⟩ := perform_append.mp
        (show (versionStore registry).perform ([Statement.insertVersion ids.version] ++
          replaceGraph ids.version ids copy) t = some t' from hperform)
      exact distinctIds_replaceGraph (distinctIds_insertVersion h hinsert) hcopy

theorem distinctIds_replaceDraft (h : t.DistinctIds) {revision : Nat}
    {graph : WorkflowGraph Value} {ws : List (Statement Value)}
    (hbody : Call.body registry (.replaceDraft ids revision graph) snap = some ws)
    (hperform : (versionStore registry).perform ws t = some t') : t'.DistinctIds := by
  obtain ⟨draft, hdraft, hchecked⟩ := Option.bind_eq_some_iff.mp hbody
  obtain ⟨-, hws⟩ := Option.ite_none_left_eq_some.mp hchecked
  obtain rfl := Option.some.inj hws
  obtain ⟨replaced, hreplace, hbump⟩ := perform_append.mp hperform
  obtain ⟨ensured, hensure, hreplace⟩ := perform_append.mp hreplace
  obtain ⟨row, -, rfl⟩ := perform_bumpRevision.mp hbump
  have hreplaced : replaced.DistinctIds :=
    distinctIds_replaceGraph (distinctIds_ensureDraft h hdraft hensure) hreplace
  exact hreplaced

end Ids

/-! ### What every history keeps -/

variable {P : TriggerPorts Value} {db db' : TriggerDb Value} {notes more : List TriggerNote}

/-- The registration and the notes, as the versions have them. -/
structure HooksFollow (db : TriggerDb Value) (notes : List TriggerNote) : Prop where
  single : db.registrations.length ≤ 1
  /-- It points at a published version with a webhook trigger. -/
  hooks : ∀ r ∈ db.registrations, db.tables.isPublished r.target.version = true ∧
    (triggerNode webhookTrigger (db.tables.graphs r.target.version)).isSome = true
  /-- It points at the active version if that has one. -/
  hooked : ∀ version, db.tables.activeVersionId = some version →
    (triggerNode webhookTrigger (db.tables.graphs version)).isSome = true →
      ∃ r ∈ db.registrations, r.target.version = version
  minted : mintedIn notes = db.registrations.map TriggerRegistration.tokenDigest
  status : ∀ r ∈ db.registrations, r.status = .revoked ↔ .revoked r.tokenDigest ∈ notes
  revoked : ∀ digest, .revoked digest ∈ notes →
    digest ∈ db.registrations.map TriggerRegistration.tokenDigest

/-- The schedule is at the trigger of a graph, due when its expression says after a time. -/
structure Timed (P : TriggerPorts Value) (rows : GraphRows Value) (s : Schedule) (cron : String)
    (time : Nat) : Prop where
  trigger : ∃ n, triggerNode scheduleTrigger rows = some n ∧ s.target.node = n.id ∧
    scheduleCron P n.node.config = some cron
  due : P.getNext cron time = some s.nextRunAt

/-- The schedule and the notes, as the versions have them. -/
structure SchedulesFollow (P : TriggerPorts Value) (db : TriggerDb Value)
    (notes : List TriggerNote) : Prop where
  single : db.schedules.length ≤ 1
  timed : ∀ s ∈ db.schedules, db.tables.isPublished s.target.version = true ∧
    ∃ cron time, lastScheduled notes = some time ∧
      Timed P (db.tables.graphs s.target.version) s cron time
  scheduled : ∀ version, db.tables.activeVersionId = some version →
    (triggerNode scheduleTrigger (db.tables.graphs version)).isSome = true →
      ∃ s ∈ db.schedules, s.target.version = version

/-- What every history keeps. -/
structure Following (P : TriggerPorts Value) (db : TriggerDb Value) (notes : List TriggerNote) :
    Prop where
  distinct : db.tables.DistinctIds
  anchored : db.Anchored
  active : ∀ version, db.tables.activeVersionId = some version →
    db.tables.isPublished version = true
  hooks : HooksFollow db notes
  schedules : SchedulesFollow P db notes

theorem Following.start : Following P ({} : TriggerDb Value) [] where
  distinct := fun _ => List.nodup_nil
  anchored := ⟨fun _ hr => absurd hr List.not_mem_nil, fun _ hs => absurd hs List.not_mem_nil⟩
  active := fun _ hv => by cases hv
  hooks := ⟨Nat.zero_le 1, fun _ hr => absurd hr List.not_mem_nil, fun _ hv => (by cases hv), rfl,
    fun _ hr => absurd hr List.not_mem_nil, fun _ hd => absurd hd List.not_mem_nil⟩
  schedules := ⟨Nat.zero_le 1, fun _ hs => absurd hs List.not_mem_nil, fun _ hv => by cases hv⟩

/-- The published versions stay as they are. -/
def KeepsPublished (db db' : TriggerDb Value) : Prop :=
  ∀ version, db.tables.isPublished version = true →
    db'.tables.isPublished version = true ∧ db'.tables.graphs version = db.tables.graphs version

/-- An edit of a version that is not published. -/
theorem Drafted.keepsPublished {id : Nat} (h : Drafted id db db')
    (hdraft : db.tables.isPublished id ≠ true) : KeepsPublished db db' := by
  intro version hpublished
  have hne : version ≠ id := fun hc => hdraft (hc ▸ hpublished)
  refine ⟨?_, h.graphs version hne⟩
  rw [Tables.isPublished, h.version version hne]
  exact hpublished

theorem Promoted.keepsPublished {version : Nat} (h : Promoted version db db') :
    KeepsPublished db db' := by
  intro u hpublished
  refine ⟨?_, congrFun h.graphs u⟩
  by_cases hu : u = version
  · rw [hu]
    exact h.published
  · rw [Tables.isPublished, h.versions u hu]
    exact hpublished

/-! ### Edits -/

theorem HooksFollow.edited (h : HooksFollow db notes) (hkept : KeepsPublished db db')
    (hactive : db'.tables.activeVersionId = db.tables.activeVersionId)
    (hpublished : ∀ v, db.tables.activeVersionId = some v → db.tables.isPublished v = true)
    (hrows : db'.registrations = db.registrations) : HooksFollow db' notes where
  single := hrows ▸ h.single
  hooks := by
    intro r hr
    rw [hrows] at hr
    obtain ⟨hversion, hhook⟩ := h.hooks r hr
    obtain ⟨hversion', hgraph⟩ := hkept _ hversion
    rw [hgraph]
    exact ⟨hversion', hhook⟩
  hooked := by
    intro version hversion hhook
    rw [hactive] at hversion
    rw [(hkept version (hpublished version hversion)).2] at hhook
    rw [hrows]
    exact h.hooked version hversion hhook
  minted := hrows ▸ h.minted
  status := fun r hr => h.status r (hrows ▸ hr)
  revoked := fun digest hdigest => hrows ▸ h.revoked digest hdigest

theorem SchedulesFollow.edited (h : SchedulesFollow P db notes) (hkept : KeepsPublished db db')
    (hactive : db'.tables.activeVersionId = db.tables.activeVersionId)
    (hpublished : ∀ v, db.tables.activeVersionId = some v → db.tables.isPublished v = true)
    (hrows : db'.schedules = db.schedules) : SchedulesFollow P db' notes where
  single := hrows ▸ h.single
  timed := by
    intro s hs
    rw [hrows] at hs
    obtain ⟨hversion, htimed⟩ := h.timed s hs
    obtain ⟨hversion', hgraph⟩ := hkept _ hversion
    rw [hgraph]
    exact ⟨hversion', htimed⟩
  scheduled := by
    intro version hversion htrigger
    rw [hactive] at hversion
    rw [(hkept version (hpublished version hversion)).2] at htrigger
    rw [hrows]
    exact h.scheduled version hversion htrigger

/-- An edit of a version that is not published changes nothing that is followed. -/
theorem Following.edited (h : Following P db notes) {id : Nat} (hdrafted : Drafted id db db')
    (hdraft : db.tables.isPublished id ≠ true) (hdistinct : db'.tables.DistinctIds)
    (hanchored : db'.Anchored) : Following P db' notes where
  distinct := hdistinct
  anchored := hanchored
  active := by
    intro version hversion
    rw [hdrafted.active] at hversion
    exact (hdrafted.keepsPublished hdraft version (h.active version hversion)).1
  hooks := h.hooks.edited (hdrafted.keepsPublished hdraft) hdrafted.active h.active
    (hdrafted.registrations_eq fun r hr hc => hdraft (hc ▸ (h.hooks.hooks r hr).1))
  schedules := h.schedules.edited (hdrafted.keepsPublished hdraft) hdrafted.active h.active
    (hdrafted.schedules_eq fun s hs hc => hdraft (hc ▸ (h.schedules.timed s hs).1))

/-! ### Publishing -/

theorem mintedIn_append : mintedIn (notes ++ more) = mintedIn notes ++ mintedIn more :=
  List.filterMap_append

theorem revoked_append (hrevoked : ∀ digest, .revoked digest ∉ more) {digest : String} :
    .revoked digest ∈ notes ++ more ↔ .revoked digest ∈ notes := by
  rw [List.mem_append]
  exact or_iff_left (hrevoked digest)

theorem Promoted.active_eq {version v : Nat} (h : Promoted version db db')
    (hv : db'.tables.activeVersionId = some v) : version = v :=
  Option.some.inj (h.active.symm.trans hv)

/-- The trigger that is promoted is there. -/
theorem Promoted.hook_there {version : Nat} (h : Promoted version db db') {hook : NodeRow Value}
    (hhook : triggerNode webhookTrigger (db.tables.graphs version) = some hook) :
    (triggerNode webhookTrigger (db'.tables.graphs version)).isSome = true := by
  rw [h.graphs, hhook]
  rfl

/-- The only registration is pointed at the trigger of the version that is now active. -/
theorem HooksFollow.pointed (h : HooksFollow db notes) {version : Nat} {hook : NodeRow Value}
    {old : TriggerRegistration} (hpromoted : Promoted version db db')
    (hhook : triggerNode webhookTrigger (db.tables.graphs version) = some hook)
    (hold : old ∈ db.registrations)
    (hall : db'.registrations =
      db.registrations.map fun r => { r with target := ⟨version, hook.id⟩ })
    (hquiet : mintedIn more = []) (hrevoked : ∀ digest, .revoked digest ∉ more) :
    HooksFollow db' (notes ++ more) := by
  have hdigests : db'.registrations.map TriggerRegistration.tokenDigest =
      db.registrations.map TriggerRegistration.tokenDigest := by
    rw [hall, List.map_map]
    rfl
  refine ⟨?_, fun r hr => ?_, fun v hv _ => ?_, ?_, fun r hr => ?_, fun digest hdigest => ?_⟩
  · rw [hall, List.length_map]
    exact h.single
  · rw [hall] at hr
    obtain ⟨before, -, rfl⟩ := List.mem_map.mp hr
    exact ⟨hpromoted.published, hpromoted.hook_there hhook⟩
  · refine ⟨{ old with target := ⟨version, hook.id⟩ }, ?_, hpromoted.active_eq hv⟩
    rw [hall]
    exact List.mem_map_of_mem hold
  · rw [mintedIn_append, hquiet, List.append_nil, hdigests]
    exact h.minted
  · rw [hall] at hr
    obtain ⟨before, hbefore, rfl⟩ := List.mem_map.mp hr
    rw [revoked_append hrevoked]
    exact h.status before hbefore
  · rw [revoked_append hrevoked] at hdigest
    rw [hdigests]
    exact h.revoked digest hdigest

/-- Where there was none, the registration that is minted is the only one. -/
theorem HooksFollow.mint (h : HooksFollow db notes) {version : Nat} {hook : NodeRow Value}
    {digest : String} (hpromoted : Promoted version db db')
    (hhook : triggerNode webhookTrigger (db.tables.graphs version) = some hook)
    (hempty : db.registrations = [])
    (hrows : db'.registrations = [{ target := ⟨version, hook.id⟩, tokenDigest := digest }])
    (hmints : mintedIn more = [digest]) (hrevoked : ∀ digest, .revoked digest ∉ more) :
    HooksFollow db' (notes ++ more) := by
  have hnever : ∀ digest, .revoked digest ∉ notes := by
    intro digest hdigest
    have hrow := h.revoked digest hdigest
    rw [hempty] at hrow
    cases hrow
  refine ⟨?_, fun r hr => ?_, fun v hv _ => ?_, ?_, fun r hr => ?_, fun digest hdigest => ?_⟩
  · rw [hrows]
    exact Nat.le_refl 1
  · rw [hrows, List.mem_singleton] at hr
    subst hr
    exact ⟨hpromoted.published, hpromoted.hook_there hhook⟩
  · refine ⟨{ target := ⟨version, hook.id⟩, tokenDigest := digest }, ?_, hpromoted.active_eq hv⟩
    rw [hrows]
    exact List.mem_singleton_self _
  · rw [mintedIn_append, h.minted, hempty, hmints, hrows]
    rfl
  · rw [hrows, List.mem_singleton] at hr
    subst hr
    rw [revoked_append hrevoked]
    exact iff_of_false (by simp) (hnever _)
  · exact absurd ((revoked_append hrevoked).mp hdigest) (hnever digest)

/-- Publishing points the registration at the new trigger, mints it, or leaves it behind. -/
theorem HooksFollow.published (h : HooksFollow db notes) {token : String} {version : Nat}
    (hpromoted : Promoted version db db') (heffect : WebhookEffect P token version db db db')
    (hminted : mintedIn more = (registerWebhook P token version db).2.toList)
    (hrevoked : ∀ digest, .revoked digest ∉ more) : HooksFollow db' (notes ++ more) := by
  cases heffect with
  | absent hnone hsame =>
      have hquiet : mintedIn more = [] := by
        rw [hminted, registerWebhook, hnone]
        rfl
      refine ⟨hsame ▸ h.single, fun r hr => ?_, fun v hv hhook => ?_, ?_, fun r hr => ?_,
        fun digest hdigest => ?_⟩
      · obtain ⟨hpublished, hhook⟩ := h.hooks r (hsame ▸ hr)
        obtain ⟨hpublished', hgraph⟩ := hpromoted.keepsPublished _ hpublished
        rw [hgraph]
        exact ⟨hpublished', hhook⟩
      · rw [← hpromoted.active_eq hv, hpromoted.graphs, hnone] at hhook
        cases hhook
      · rw [mintedIn_append, hquiet, List.append_nil, hsame]
        exact h.minted
      · rw [revoked_append hrevoked]
        exact h.status r (hsame ▸ hr)
      · rw [revoked_append hrevoked] at hdigest
        exact hsame ▸ h.revoked digest hdigest
  | pointed hook existing hhook hexisting hmem hrows =>
      have hquiet : mintedIn more = [] := by
        rw [hminted, registerWebhook, hhook, hexisting]
        rfl
      obtain ⟨old, hold, hdigest⟩ := List.mem_map.mp hmem
      refine h.pointed hpromoted hhook hold ?_ hquiet hrevoked
      rw [hrows]
      refine List.map_congr_left fun r hr => ?_
      rw [eq_of_single h.single hr hold, if_pos hdigest]
  | minted hook hhook hnone hnew hrows =>
      have hempty : db.registrations = [] := List.head?_eq_none_iff.mp hnone
      rw [hempty, List.nil_append] at hrows
      have hmints : mintedIn more = [P.hashToken token] := by
        rw [hminted, registerWebhook, hhook, hnone]
        rfl
      exact h.mint hpromoted hhook hempty hrows hmints hrevoked

/-- Publishing sets the schedule for the new trigger, adds it, or leaves it behind. -/
theorem SchedulesFollow.published (h : SchedulesFollow P db notes) {scheduleId now version : Nat}
    (hpromoted : Promoted version db db')
    (heffect : ScheduleEffect P scheduleId now version db db db')
    (hlast : lastScheduled (notes ++ more) =
      if (triggerNode scheduleTrigger (db.tables.graphs version)).isSome then some now
      else lastScheduled notes) : SchedulesFollow P db' (notes ++ more) := by
  have hkept := hpromoted.keepsPublished
  cases heffect with
  | absent hnone hsame =>
      rw [hnone] at hlast
      refine ⟨hsame ▸ h.single, fun s hs => ?_, fun v hv htrigger => ?_⟩
      · obtain ⟨hpublished, htimed⟩ := h.timed s (hsame ▸ hs)
        obtain ⟨hpublished', hgraph⟩ := hkept _ hpublished
        rw [hgraph, hlast]
        exact ⟨hpublished', htimed⟩
      · rw [← hpromoted.active_eq hv, hpromoted.graphs, hnone] at htrigger
        cases htrigger
  | pointed trigger cron due existing htrigger hcron hdue hexisting hmem hrows =>
      rw [htrigger, Option.isSome_some, if_pos rfl] at hlast
      obtain ⟨old, hold, hid⟩ := List.mem_map.mp hmem
      have hall : db'.schedules = db.schedules.map fun s =>
          { s with target := ⟨version, trigger.id⟩, nextRunAt := due } := by
        rw [hrows]
        refine List.map_congr_left fun s hs => ?_
        rw [eq_of_single h.single hs hold, if_pos hid]
      refine ⟨?_, fun s hs => ?_, fun v hv _ => ?_⟩
      · rw [hall, List.length_map]
        exact h.single
      · rw [hall] at hs
        obtain ⟨before, -, rfl⟩ := List.mem_map.mp hs
        refine ⟨hpromoted.published, cron, now, hlast, ⟨trigger, ?_, rfl, hcron⟩, hdue⟩
        show triggerNode scheduleTrigger (db'.tables.graphs version) = some trigger
        rw [hpromoted.graphs, htrigger]
      · refine ⟨{ old with target := ⟨version, trigger.id⟩, nextRunAt := due }, ?_,
          hpromoted.active_eq hv⟩
        rw [hall]
        exact List.mem_map_of_mem hold
  | added trigger cron due htrigger hcron hdue hnone hnew hrows =>
      rw [htrigger, Option.isSome_some, if_pos rfl] at hlast
      have hempty : db.schedules = [] := List.head?_eq_none_iff.mp hnone
      rw [hempty, List.nil_append] at hrows
      refine ⟨?_, fun s hs => ?_, fun v hv _ => ?_⟩
      · rw [hrows]
        exact Nat.le_refl 1
      · rw [hrows, List.mem_singleton] at hs
        subst hs
        refine ⟨hpromoted.published, cron, now, hlast, ⟨trigger, ?_, rfl, hcron⟩, hdue⟩
        show triggerNode scheduleTrigger (db'.tables.graphs version) = some trigger
        rw [hpromoted.graphs, htrigger]
      · refine ⟨⟨scheduleId, ⟨version, trigger.id⟩, due⟩, ?_, hpromoted.active_eq hv⟩
        rw [hrows]
        exact List.mem_singleton_self _

/-- What a publish shows is the token it returns, and the time if it sets the schedule. -/
theorem callNotes_publish (token : String) (scheduleId now : Nat) {version : Nat}
    {row : WorkflowVersion} (hdraft : db.tables.getDraft = some (version, row)) :
    mintedIn (callNotes P db (.publish token scheduleId now)) =
        (registerWebhook P token version db).2.toList ∧
      (∀ digest, .revoked digest ∉ callNotes P db (.publish token scheduleId now)) ∧
      lastScheduled (notes ++ callNotes P db (.publish token scheduleId now)) =
        if (triggerNode scheduleTrigger (db.tables.graphs version)).isSome then some now
        else lastScheduled notes := by
  simp only [callNotes, hdraft]
  cases (registerWebhook P token version db).2 <;>
    cases (triggerNode scheduleTrigger (db.tables.graphs version)).isSome <;>
      simp [mintedIn, lastScheduled]

/-! ### Revoking and deleting -/

/-- A registration that is revoked stays where it is. -/
theorem HooksFollow.revoke (h : HooksFollow db notes) {digest : String} :
    HooksFollow (TriggerChange.apply (.revoke digest) db) (notes ++
      if digest ∈ db.registrations.map TriggerRegistration.tokenDigest then [.revoked digest]
      else []) := by
  have hdigests : (TriggerChange.apply (.revoke digest) db).registrations.map
      TriggerRegistration.tokenDigest = db.registrations.map TriggerRegistration.tokenDigest := by
    show (db.registrations.map _).map _ = _
    rw [List.map_map]
    refine List.map_congr_left fun r _ => ?_
    simp only [Function.comp_apply]
    split <;> rfl
  refine ⟨(List.length_map _).le.trans h.single, fun r hr => ?_, fun v hv hhook => ?_, ?_,
    fun r hr => ?_, fun other hother => ?_⟩
  · obtain ⟨old, hold, rfl⟩ := List.mem_map.mp hr
    split
    · exact h.hooks old hold
    · exact h.hooks old hold
  · obtain ⟨r, hr, hversion⟩ := h.hooked v hv hhook
    refine ⟨_, List.mem_map_of_mem hr, ?_⟩
    split
    · exact hversion
    · exact hversion
  · rw [mintedIn_append, hdigests, h.minted]
    split
    · exact List.append_nil _
    · exact List.append_nil _
  · obtain ⟨old, hold, rfl⟩ := List.mem_map.mp hr
    by_cases hdigest : old.tokenDigest = digest
    · rw [if_pos hdigest, if_pos (List.mem_map.mpr ⟨old, hold, hdigest⟩)]
      exact iff_of_true rfl (List.mem_append_right _ (by simp [hdigest]))
    · rw [if_neg hdigest, List.mem_append, h.status old hold]
      refine (or_iff_left fun hc => ?_).symm
      split at hc
      · exact hdigest (TriggerNote.revoked.inj (List.mem_singleton.mp hc))
      · cases hc
  · rw [hdigests]
    rcases List.mem_append.mp hother with hold | hnew
    · exact h.revoked other hold
    · split at hnew
      · rename_i hmem
        rw [TriggerNote.revoked.inj (List.mem_singleton.mp hnew)]
        exact hmem
      · cases hnew

/-- What nothing that is followed depends on. -/
theorem Following.delete (h : Following P db notes) :
    Following P (TriggerChange.apply .delete db) notes where
  distinct := h.distinct
  anchored := h.anchored.exec (w := .delete) rfl
  active := h.active
  hooks := ⟨h.hooks.single, h.hooks.hooks, h.hooks.hooked, h.hooks.minted, h.hooks.status,
    h.hooks.revoked⟩
  schedules := ⟨h.schedules.single, h.schedules.timed, h.schedules.scheduled⟩

/-- A revocation shows no time. -/
theorem Following.revoke (h : Following P db notes) {digest : String} :
    Following P (TriggerChange.apply (.revoke digest) db) (notes ++
      if digest ∈ db.registrations.map TriggerRegistration.tokenDigest then [.revoked digest]
      else []) where
  distinct := h.distinct
  anchored := h.anchored.exec (w := .revoke digest) rfl
  active := h.active
  hooks := h.hooks.revoke
  schedules := by
    refine ⟨h.schedules.single, fun s hs => ?_, h.schedules.scheduled⟩
    have hlast : lastScheduled (notes ++
        if digest ∈ db.registrations.map TriggerRegistration.tokenDigest then
          [TriggerNote.revoked digest] else []) = lastScheduled notes := by
      split <;> simp [lastScheduled]
    rw [hlast]
    exact h.schedules.timed s hs

/-! ### Every history -/

section Histories

variable [DecidableEq Value]

/-- A draft that was there is not published. -/
theorem ensureDraft_unpublished {ids : NewIds} {t : Tables Value} {draft : EnsuredDraft Value}
    (h : ensureDraft ids t = some draft)
    (hmade : draft.statements = [] ∨ t.version draft.id = none) :
    t.isPublished draft.id ≠ true := by
  rcases hmade with hnil | hfresh
  · unfold ensureDraft at h
    split at h
    · rename_i id row hdraft
      obtain rfl := Option.some.inj h
      obtain ⟨hrow, hstatus⟩ := t.getDraft_eq_some hdraft
      intro hc
      obtain ⟨other, hother, hpublished⟩ := isPublished_iff.mp hc
      rw [Option.some.inj (hother.symm.trans hrow), hstatus] at hpublished
      cases hpublished
    · split at h
      · obtain rfl := Option.some.inj h
        cases hnil
      · obtain ⟨copy, -, rfl⟩ := Option.map_eq_some_iff.mp h
        cases hnil
  · exact not_published_of_fresh hfresh

/-- A call keeps what is followed. -/
theorem Following.serve {x : TriggerDb Value × List TriggerNote} (h : Following P x.1 x.2)
    (call : TriggerCall Value) : Following P (serve P x call).1 (serve P x call).2 := by
  unfold Orqent.serve
  split
  · exact h
  rename_i db' hserved
  obtain ⟨ws, hbody, hperform⟩ := Option.bind_eq_some_iff.mp hserved
  have hanchored : db'.Anchored :=
    perform_keeps (fun _ _ _ hs hexec => hs.exec hexec) h.anchored hperform
  cases call with
  | getDraft ids =>
      simp only [callNotes, List.append_nil]
      rcases getDraft_effect hbody hperform with rfl | ⟨id, hfresh, hdrafted⟩
      · exact h
      · obtain ⟨statements, hcall, rfl⟩ :=
          Option.map_eq_some_iff.mp (Option.ite_none_left_eq_some.mp hbody).2
        obtain ⟨draft, hdraft, rfl⟩ := Option.map_eq_some_iff.mp hcall
        exact h.edited hdrafted (not_published_of_fresh hfresh)
          (distinctIds_ensureDraft h.distinct hdraft (perform_tables hperform)) hanchored
  | replaceDraft ids revision graph =>
      simp only [callNotes, List.append_nil]
      obtain ⟨draft, hdraft, hmade, hdrafted, -⟩ := replaceDraft_effect h.anchored hbody hperform
      obtain ⟨statements, hcall, rfl⟩ :=
        Option.map_eq_some_iff.mp (Option.ite_none_left_eq_some.mp hbody).2
      exact h.edited hdrafted (ensureDraft_unpublished hdraft hmade)
        (distinctIds_replaceDraft h.distinct hcall (perform_tables hperform)) hanchored
  | publish token scheduleId now =>
      obtain ⟨version, heffect⟩ := publish_effect hbody hperform
      obtain ⟨row, hdraft⟩ := heffect.draft
      obtain ⟨hminted, hrevoked, hlast⟩ := @callNotes_publish _ P x.1 x.2 token scheduleId now
        version row hdraft
      refine ⟨?_, hanchored, fun v hv => ?_, ?_, ?_⟩
      · intro v
        rw [heffect.promoted.graphs]
        exact h.distinct v
      · rw [heffect.promoted.active] at hv
        rw [← Option.some.inj hv]
        exact heffect.promoted.published
      · exact h.hooks.published heffect.promoted heffect.webhook hminted hrevoked
      · exact h.schedules.published heffect.promoted heffect.schedule hlast
  | softDelete =>
      obtain ⟨-, hws⟩ := Option.ite_none_left_eq_some.mp hbody
      obtain rfl := Option.some.inj hws
      obtain ⟨d, hexec, rfl⟩ := perform_singleton.mp hperform
      obtain rfl := Option.some.inj hexec
      simp only [callNotes, List.append_nil]
      exact h.delete
  | revoke digest =>
      obtain rfl := Option.some.inj hbody
      obtain ⟨d, hexec, rfl⟩ := perform_singleton.mp hperform
      obtain rfl := Option.some.inj hexec
      exact h.revoke

/-- Every history keeps it. -/
theorem following_afterCalls (calls : List (TriggerCall Value)) :
    Following P (afterCalls P calls).1 (afterCalls P calls).2 := by
  induction calls using List.reverseRecOn with
  | nil => exact Following.start
  | append_singleton calls call ih =>
      rw [afterCalls, List.foldl_append]
      exact ih.serve call

end Histories

/-! ### The address and the schedule are those of the active version -/

/-- The expression of the schedule trigger of the active version. -/
def TriggerDb.publishedCron (P : TriggerPorts Value) (db : TriggerDb Value) : Option String := do
  let version ← db.tables.activeVersionId
  let trigger ← triggerNode scheduleTrigger (db.tables.graphs version)
  scheduleCron P trigger.node.config

/--
One token is returned, and it resolves as long as it is not revoked, the workflow is not
deleted and its active version has a webhook trigger.
-/
structure WebhookFollows (db : TriggerDb Value) (notes : List TriggerNote) : Prop where
  once : (mintedIn notes).length ≤ 1
  resolves : ∀ digest, (mintedIn notes).head? = some digest →
    ((db.getByTokenDigest digest).isSome = true ↔
      .revoked digest ∉ notes ∧ db.deleted = false ∧ db.publishes webhookTrigger = true)

/--
There is one schedule at most, and once it is due it can be claimed as long as the
workflow is not deleted and its active version has a schedule trigger; it then carries
that version's expression.
-/
structure ScheduleFollows (P : TriggerPorts Value) (db : TriggerDb Value)
    (notes : List TriggerNote) : Prop where
  single : db.schedules.length ≤ 1
  there : db.publishes scheduleTrigger = true → db.schedules ≠ []
  claimed : ∀ now, (claimDue P now db).isSome = true ↔
    db.deleted = false ∧ db.publishes scheduleTrigger = true ∧ ∃ s ∈ db.schedules, s.nextRunAt ≤ now
  carries : ∀ now due, claimDue P now db = some due →
    due.schedule ∈ db.schedules ∧ db.publishedCron P = some due.cron
  /-- It is due when its expression says after the publish that set it, and later than that. -/
  later : ∀ s ∈ db.schedules, ∃ cron time, db.cronAt P s.target = some cron ∧
    lastScheduled notes = some time ∧ P.getNext cron time = some s.nextRunAt ∧ time < s.nextRunAt

theorem Following.webhookFollows (h : Following P db notes) : WebhookFollows db notes where
  once := by
    rw [h.hooks.minted, List.length_map]
    exact h.hooks.single
  resolves := by
    intro digest hdigest
    rw [h.hooks.minted, List.head?_map] at hdigest
    obtain ⟨r, hhead, rfl⟩ := Option.map_eq_some_iff.mp hdigest
    have hr : r ∈ db.registrations := List.mem_of_head? hhead
    have hstatus : r.status = .active ↔ .revoked r.tokenDigest ∉ notes := by
      rw [← h.hooks.status r hr]
      cases r.status <;> simp
    have hactive : db.tables.activeVersionId = some r.target.version ↔
        db.publishes webhookTrigger = true := by
      constructor
      · intro hversion
        rw [TriggerDb.publishes, hversion]
        exact (h.hooks.hooks r hr).2
      · intro hpublishes
        obtain ⟨version, hversion, hhook⟩ := (Option.any_eq_true _ _).mp hpublishes
        obtain ⟨other, hother, htarget⟩ := h.hooks.hooked version hversion hhook
        rw [eq_of_single h.hooks.single hr hother, htarget, hversion]
    have hresolves : (db.getByTokenDigest r.tokenDigest).isSome = true ↔
        r.status = .active ∧ db.isLive r.target = true := by
      rw [TriggerDb.getByTokenDigest, List.find?_isSome]
      constructor
      · rintro ⟨other, hother, hmatch⟩
        rw [eq_of_single h.hooks.single hother hr] at hmatch
        simpa using hmatch
      · intro hmatch
        exact ⟨r, hr, by simpa using hmatch⟩
    rw [hresolves, hstatus, ← hactive]
    refine and_congr_right fun _ => ?_
    simp [TriggerDb.isLive, and_comm]

/-- The join finds the trigger a schedule points at. -/
theorem Following.cronAt (h : Following P db notes) {s : Schedule} (hs : s ∈ db.schedules) :
    ∃ n cron time, triggerNode scheduleTrigger (db.tables.graphs s.target.version) = some n ∧
      scheduleCron P n.node.config = some cron ∧ db.cronAt P s.target = some cron ∧
      lastScheduled notes = some time ∧ P.getNext cron time = some s.nextRunAt := by
  obtain ⟨-, cron, time, hlast, ⟨n, htrigger, hnode, hcron⟩, hdue⟩ := h.schedules.timed s hs
  refine ⟨n, cron, time, htrigger, hcron, ?_, hlast, hdue⟩
  rw [TriggerDb.cronAt, hnode, joined_of_mem (h.distinct _) (triggerNode_mem htrigger)]
  exact hcron

theorem Following.scheduleFollows (h : Following P db notes)
    (hnext : ∀ cron base due, P.getNext cron base = some due → base < due) :
    ScheduleFollows P db notes := by
  have hactive : ∀ s ∈ db.schedules, db.tables.activeVersionId = some s.target.version ↔
      db.publishes scheduleTrigger = true := by
    intro s hs
    constructor
    · intro hversion
      obtain ⟨n, -, -, htrigger, -⟩ := h.cronAt hs
      rw [TriggerDb.publishes, hversion, Option.any_some, htrigger]
      rfl
    · intro hpublishes
      obtain ⟨version, hversion, htrigger⟩ := (Option.any_eq_true _ _).mp hpublishes
      obtain ⟨other, hother, htarget⟩ := h.schedules.scheduled version hversion htrigger
      rw [eq_of_single h.schedules.single hs hother, htarget, hversion]
  refine ⟨h.schedules.single, fun hpublishes => ?_, fun now => ?_, fun now due hdue => ?_,
    fun s hs => ?_⟩
  · obtain ⟨version, hversion, htrigger⟩ := (Option.any_eq_true _ _).mp hpublishes
    obtain ⟨s, hs, -⟩ := h.schedules.scheduled version hversion htrigger
    exact List.ne_nil_of_mem hs
  · constructor
    · intro hsome
      obtain ⟨due, hdue⟩ := Option.isSome_iff_exists.mp hsome
      obtain ⟨s, hfind, -⟩ := Option.bind_eq_some_iff.mp hdue
      have hs := List.mem_of_find?_eq_some hfind
      have hmatch : s.nextRunAt ≤ now ∧ db.tables.activeVersionId = some s.target.version ∧
          db.deleted = false := by
        simpa [TriggerDb.isDue, TriggerDb.isLive] using List.find?_some hfind
      exact ⟨hmatch.2.2, (hactive s hs).mp hmatch.2.1, s, hs, hmatch.1⟩
    · rintro ⟨hdeleted, hpublishes, s, hs, hdue⟩
      obtain ⟨other, hfind⟩ : ∃ other, db.schedules.find? (db.isDue now) = some other := by
        rw [← Option.isSome_iff_exists, List.find?_isSome]
        refine ⟨s, hs, ?_⟩
        simp [TriggerDb.isDue, TriggerDb.isLive, hdue, (hactive s hs).mpr hpublishes, hdeleted]
      obtain ⟨-, cron, -, -, -, hcron, -⟩ := h.cronAt (List.mem_of_find?_eq_some hfind)
      simp [claimDue, hfind, hcron]
  · obtain ⟨s, hfind, hclaim⟩ := Option.bind_eq_some_iff.mp hdue
    obtain ⟨cron, hcron, hclaim⟩ := Option.bind_eq_some_iff.mp hclaim
    obtain rfl := Option.some.inj hclaim
    have hs := List.mem_of_find?_eq_some hfind
    have hversion : db.tables.activeVersionId = some s.target.version := by
      have hmatch := List.find?_some hfind
      simp only [TriggerDb.isDue, TriggerDb.isLive, Bool.and_eq_true, decide_eq_true_eq] at hmatch
      exact hmatch.2.1
    obtain ⟨n, cron', -, htrigger, hconfig, hcron', -⟩ := h.cronAt hs
    obtain rfl := Option.some.inj (hcron'.symm.trans hcron)
    refine ⟨hs, ?_⟩
    simp [TriggerDb.publishedCron, hversion, htrigger, hconfig]
  · obtain ⟨n, cron, time, -, -, hcron, hlast, hdue⟩ := h.cronAt hs
    exact ⟨cron, time, hcron, hlast, hdue, hnext cron time s.nextRunAt hdue⟩

/--
**Triggers follow the active version.**  After every history of publishes, draft edits,
revocations and deletions of one workflow: the one token ever returned resolves if and
only if it was not revoked, the workflow is not deleted and its active version has a
webhook trigger; and the one schedule, once it is due, can be claimed if and only if the
workflow is not deleted and its active version has a schedule trigger, with that version's
expression and a due time later than the publish that set it.
-/
theorem triggers_follow_active_version [DecidableEq Value]
    (hnext : ∀ cron base due, P.getNext cron base = some due → base < due)
    (calls : List (TriggerCall Value)) :
    WebhookFollows (afterCalls P calls).1 (afterCalls P calls).2 ∧
      ScheduleFollows P (afterCalls P calls).1 (afterCalls P calls).2 :=
  ⟨(following_afterCalls calls).webhookFollows, (following_afterCalls calls).scheduleFollows hnext⟩

/-- A webhook is published, then a schedule in its place, then the webhook again; its token is
revoked, and the workflow deleted. -/
def turns : List (TriggerCall String) :=
  [.replaceDraft ⟨1, 1, 1⟩ 1 hookGraph, .publish "first" 1 10,
    .replaceDraft ⟨2, 2, 1⟩ 1 scheduleGraph, .publish "second" 1 20,
    .replaceDraft ⟨3, 4, 1⟩ 1 hookGraph, .publish "third" 2 30,
    .revoke "digest of first", .softDelete]

/-- The first token is the one there is, and the schedule is the one set at twenty. -/
theorem turns_follow :
    (afterCalls minutePorts turns).2 =
        [.minted "digest of first", .scheduled 20, .revoked "digest of first"] ∧
      WebhookFollows (afterCalls minutePorts turns).1 (afterCalls minutePorts turns).2 ∧
        ScheduleFollows minutePorts (afterCalls minutePorts turns).1
          (afterCalls minutePorts turns).2 :=
  ⟨by decide +kernel, triggers_follow_active_version minutePorts_later turns⟩

end Orqent
