/-
A workflow has one webhook address for life.

A publish looks for the registration in its snapshot: it points the one it finds at the
new trigger node, and mints an address if it finds none.  `OneAddress` is what that is
for: there is never more than one registration, and every address handed out and not
revoked resolves.

Nothing keeps two publishes of one draft apart, so both may find no registration and both
mint.  And a save that found a draft deletes the nodes of that version by its id, even if
it has been published since; the registration goes with its node, and the next publish
mints another address.  `Clashes` are these two, and `one_address_iff` says that a run
keeps its one address exactly when none of its commits does either.
-/
import Orqent.Triggers.Service
import Orqent.Versions.Publishing

namespace Orqent

open LockStore

variable {Value ι : Type}

/-- What a commit shows of the addresses of the workflow. -/
inductive AddressNote
  /-- A publish returned the token with this digest. -/
  | minted (digest : String)
  /-- The registration with this digest was revoked. -/
  | revoked (digest : String)
deriving DecidableEq, Repr

/-- The version a publish promotes. -/
def promoted (t : TriggerTxn Value) : Option Nat :=
  match t.call with
  | .publish .. => t.snap.tables.getDraft.map Prod.fst
  | _ => none

section Addresses

variable [DecidableEq Value]

/-- The version a save writes to. -/
def savedInto (t : TriggerTxn Value) : Option Nat :=
  match t.call with
  | .replaceDraft ids _ _ => (ensureDraft ids t.snap.tables).map EnsuredDraft.id
  | _ => none

/-- What a commit shows: a token is returned once its transaction has committed. -/
def addressNotes (P : TriggerPorts Value) (p : Triggering Value ι) (e : TriggerEvent Value ι) :
    List AddressNote :=
  match p.committing e with
  | none => []
  | some t =>
      match t.call with
      | .publish token _ _ =>
          ((promoted t).bind fun version =>
            (registerWebhook P token version t.snap).2.map .minted).toList
      | .revoke digest =>
          if digest ∈ p.committed.registrations.map TriggerRegistration.tokenDigest then
            [.revoked digest]
          else []
      | _ => []

/-- The pool of a workflow and the notes taken so far. -/
abbrev Addresses (Value ι : Type) := Triggering Value ι × List AddressNote

/-- A workflow as it is created, for which no address was minted. -/
def Addresses.start (Value ι : Type) : Addresses Value ι := (Pool.start {}, [])

/-- There is at most one registration, and what was minted and not revoked resolves. -/
def OneAddress (x : Addresses Value ι) : Prop :=
  x.1.committed.registrations.length ≤ 1 ∧
    ∀ digest, .minted digest ∈ x.2 → .revoked digest ∉ x.2 →
      (x.1.committed.getByTokenDigest digest).isSome = true

/-- The workflow is not deleted, and a version that is published has a webhook trigger. -/
def Hooked (x : Addresses Value ι) (e : TriggerEvent Value ι) : Prop :=
  ∀ t ∈ x.1.committing e, t.call.isDelete = false ∧
    ∀ version ∈ promoted t,
      (triggerNode webhookTrigger (t.snap.tables.graphs version)).isSome = true

/--
A publish that found no registration commits beside one, or a save commits on the version
that a registration points at which was not revoked.
-/
def Clashes (x : Addresses Value ι) (e : TriggerEvent Value ι) : Prop :=
  ∃ t ∈ x.1.committing e,
    (promoted t ≠ none ∧ t.snap.registration = none ∧ x.1.committed.registrations ≠ []) ∨
      ∃ version ∈ savedInto t, ∃ r ∈ x.1.committed.registrations,
        r.target.version = version ∧ .revoked r.tokenDigest ∉ x.2

instance (x : Addresses Value ι) (e : TriggerEvent Value ι) : Decidable (Hooked x e) :=
  inferInstanceAs (Decidable (∀ t ∈ x.1.committing e, _ ∧ _))

instance (x : Addresses Value ι) (e : TriggerEvent Value ι) : Decidable (Clashes x e) :=
  inferInstanceAs (Decidable (∃ t ∈ x.1.committing e, _ ∨ _))

end Addresses

/-! ### What a run without a clash keeps -/

variable {P : TriggerPorts Value} {db db' : TriggerDb Value} {notes : List AddressNote}

/-- What the committed rows and the notes have between them, as long as nothing clashes. -/
structure Addressed (db : TriggerDb Value) (notes : List AddressNote) : Prop where
  anchored : db.Anchored
  present : db.deleted = false
  single : db.registrations.length ≤ 1
  live : ∀ r ∈ db.registrations, db.tables.activeVersionId = some r.target.version ∧
    db.tables.isPublished r.target.version = true
  noted : ∀ r ∈ db.registrations, .minted r.tokenDigest ∈ notes
  minted : ∀ digest, .minted digest ∈ notes → .revoked digest ∉ notes →
    ∃ r ∈ db.registrations, r.tokenDigest = digest ∧ r.status = .active

theorem Addressed.start : Addressed ({} : TriggerDb Value) [] where
  anchored := ⟨fun _ hr => absurd hr List.not_mem_nil, fun _ hs => absurd hs List.not_mem_nil⟩
  present := rfl
  single := Nat.zero_le 1
  live := fun _ hr => absurd hr List.not_mem_nil
  noted := fun _ hr => absurd hr List.not_mem_nil
  minted := fun _ hd => absurd hd List.not_mem_nil

/-- The registration of an address that was not revoked resolves. -/
theorem Addressed.resolves (h : Addressed db notes) {digest : String}
    (hminted : .minted digest ∈ notes) (hkept : .revoked digest ∉ notes) :
    (db.getByTokenDigest digest).isSome = true := by
  obtain ⟨r, hr, hdigest, hactive⟩ := h.minted digest hminted hkept
  refine List.find?_isSome.mpr ⟨r, hr, ?_⟩
  simp [hdigest, hactive, TriggerDb.isLive, (h.live r hr).1, h.present]

/-- What resolves has a registration. -/
theorem registered_of_resolves {digest : String}
    (h : (db.getByTokenDigest digest).isSome = true) :
    ∃ r ∈ db.registrations, r.tokenDigest = digest := by
  obtain ⟨r, hr, hprop⟩ := List.find?_isSome.mp h
  simp only [Bool.and_eq_true, decide_eq_true_eq] at hprop
  exact ⟨r, hr, hprop.1.1⟩

/-- Editing a version that only revoked addresses point at. -/
theorem Addressed.drafted (h : Addressed db notes) {id : Nat} (hanchored : db'.Anchored)
    (hdrafted : Drafted id db db')
    (hrevoked : ∀ r ∈ db.registrations, r.target.version = id → .revoked r.tokenDigest ∈ notes)
    (hclear : ∀ r ∈ db'.registrations, r.target.version ≠ id) : Addressed db' notes where
  anchored := hanchored
  present := hdrafted.deleted.trans h.present
  single := hdrafted.keptRegistrations.length_le.trans h.single
  live := by
    intro r hr
    obtain ⟨hactive, hpublished⟩ := h.live r (hdrafted.keptRegistrations.subset hr)
    refine ⟨hdrafted.active.trans hactive, ?_⟩
    rw [Tables.isPublished, hdrafted.version _ (hclear r hr)]
    exact hpublished
  noted := fun r hr => h.noted r (hdrafted.keptRegistrations.subset hr)
  minted := by
    intro digest hminted hkept
    obtain ⟨r, hr, rfl, hactive⟩ := h.minted digest hminted hkept
    have hother : r.target.version ≠ id := fun hc => hkept (hrevoked r hr hc)
    have hmem : r ∈ db'.registrations.filter fun r => r.target.version ≠ id := by
      rw [hdrafted.registrations]
      exact List.mem_filter.mpr ⟨hr, decide_eq_true hother⟩
    exact ⟨r, List.mem_of_mem_filter hmem, rfl, hactive⟩

/-- A version that is not there has nothing pointing at it. -/
theorem Addressed.fresh (h : Addressed db notes) {id : Nat} (hfresh : db.tables.version id = none) :
    ∀ r ∈ db.registrations, r.target.version ≠ id := by
  intro r hr hversion
  exact not_published_of_fresh (hversion ▸ hfresh) (h.live r hr).2

/-- Publishing keeps the one address, or mints it where there is none. -/
theorem Addressed.published (h : Addressed db notes) {token : String}
    {scheduleId now version : Nat} {snap : TriggerDb Value} (hanchored : db'.Anchored)
    (heffect : PublishEffect P token scheduleId now version snap db db')
    (hhook : (triggerNode webhookTrigger (snap.tables.graphs version)).isSome = true)
    (halone : snap.registration = none → db.registrations = []) :
    Addressed db' (notes ++
      ((registerWebhook P token version snap).2.map AddressNote.minted).toList) := by
  have hpresent : db'.deleted = false := heffect.promoted.deleted.trans h.present
  cases heffect.webhook with
  | absent hnone hsame =>
      rw [hnone] at hhook
      cases hhook
  | pointed hook existing hhook hexisting hmem hrows =>
      have hquiet : (registerWebhook P token version snap).2 = none := by
        unfold registerWebhook
        rw [hhook, hexisting]
      rw [hquiet, Option.map_none, Option.toList_none, List.append_nil]
      obtain ⟨old, hold, hdigest⟩ := List.mem_map.mp hmem
      have hall : db'.registrations =
          db.registrations.map fun r => { r with target := ⟨version, hook.id⟩ } := by
        rw [hrows]
        refine List.map_congr_left fun r hr => ?_
        rw [eq_of_single h.single hr hold, if_pos hdigest]
      refine ⟨hanchored, hpresent, ?_, ?_, ?_, ?_⟩
      · rw [hall, List.length_map]
        exact h.single
      · intro r hr
        rw [hall] at hr
        obtain ⟨old, -, rfl⟩ := List.mem_map.mp hr
        exact ⟨heffect.promoted.active, heffect.promoted.published⟩
      · intro r hr
        rw [hall] at hr
        obtain ⟨old, hold, rfl⟩ := List.mem_map.mp hr
        exact h.noted old hold
      · intro digest hminted hkept
        obtain ⟨r, hr, hdigest, hactive⟩ := h.minted digest hminted hkept
        refine ⟨{ r with target := ⟨version, hook.id⟩ }, ?_, hdigest, hactive⟩
        rw [hall]
        exact List.mem_map_of_mem hr
  | minted hook hhook hnone hnew hrows =>
      have hmints : (registerWebhook P token version snap).2 = some (P.hashToken token) := by
        unfold registerWebhook
        rw [hhook, hnone]
      rw [hmints, Option.map_some, Option.toList_some]
      rw [halone hnone, List.nil_append] at hrows
      refine ⟨hanchored, hpresent, ?_, ?_, ?_, ?_⟩
      · rw [hrows]
        exact Nat.le_refl 1
      · intro r hr
        rw [hrows, List.mem_singleton] at hr
        rw [hr]
        exact ⟨heffect.promoted.active, heffect.promoted.published⟩
      · intro r hr
        rw [hrows, List.mem_singleton] at hr
        rw [hr]
        exact List.mem_append_right _ (List.mem_singleton_self _)
      · intro digest hminted hkept
        rcases List.mem_append.mp hminted with hold | hfresh
        · obtain ⟨r, hr, -⟩ := h.minted digest hold fun hc => hkept (List.mem_append_left _ hc)
          rw [halone hnone] at hr
          cases hr
        · obtain rfl := AddressNote.minted.inj (List.mem_singleton.mp hfresh)
          refine ⟨{ target := ⟨version, hook.id⟩, tokenDigest := P.hashToken token }, ?_, rfl, rfl⟩
          rw [hrows]
          exact List.mem_singleton_self _

/-- Revoking an address leaves the others. -/
theorem Addressed.revoked (h : Addressed db notes) {digest : String} (hanchored : db'.Anchored)
    (hdb' : TriggerChange.apply (.revoke digest) db = db') :
    Addressed db' (notes ++
      if digest ∈ db.registrations.map TriggerRegistration.tokenDigest then [.revoked digest]
      else []) := by
  subst hdb'
  have hrow : ∀ r ∈ (TriggerChange.apply (.revoke digest) db).registrations,
      ∃ old ∈ db.registrations, r.target = old.target ∧ r.tokenDigest = old.tokenDigest := by
    intro r hr
    obtain ⟨old, hold, rfl⟩ := List.mem_map.mp hr
    refine ⟨old, hold, ?_⟩
    split <;> exact ⟨rfl, rfl⟩
  refine ⟨hanchored, h.present, ?_, ?_, ?_, ?_⟩
  · exact (List.length_map _).le.trans h.single
  · intro r hr
    obtain ⟨old, hold, htarget, -⟩ := hrow r hr
    rw [htarget]
    exact h.live old hold
  · intro r hr
    obtain ⟨old, hold, -, hdigest⟩ := hrow r hr
    rw [hdigest]
    exact List.mem_append_left _ (h.noted old hold)
  · intro other hminted hkept
    have hminted' : .minted other ∈ notes := by
      rcases List.mem_append.mp hminted with hold | hnew
      · exact hold
      · split at hnew
        · cases List.mem_singleton.mp hnew
        · cases hnew
    obtain ⟨r, hr, rfl, hactive⟩ :=
      h.minted other hminted' fun hc => hkept (List.mem_append_left _ hc)
    have hne : r.tokenDigest ≠ digest := by
      intro hc
      refine hkept (List.mem_append_right _ ?_)
      rw [← hc, if_pos (List.mem_map_of_mem hr)]
      exact List.mem_singleton_self _
    refine ⟨r, List.mem_map.mpr ⟨r, hr, ?_⟩, rfl, hactive⟩
    rw [if_neg hne]

/-! ### Every run -/

section Runs

variable [DecidableEq Value] [DecidableEq ι] {x x' : Addresses Value ι} {e : TriggerEvent Value ι}

/-- One event, and what it shows. -/
def addressStep (P : TriggerPorts Value) :
    Addresses Value ι → TriggerEvent Value ι → Option (Addresses Value ι) :=
  Trace.noting (triggerStore P).poolStep fun p e _ => addressNotes P p e

/-- What a step that commits does, and what it shows. -/
theorem addressStep_performs (hok : PoolOk (triggerStore P) x.1)
    (hstep : addressStep P x e = some x') :
    (x.1.committing e = none ∧ x'.1.committed = x.1.committed ∧ x'.2 = x.2) ∨
      ∃ t ws, x.1.committing e = some t ∧ t.call.body P t.snap = some ws ∧
        (triggerStore P).perform ws x.1.committed = some x'.1.committed ∧
        x'.2 = x.2 ++ addressNotes P x.1 e := by
  obtain ⟨p', hpool, rfl⟩ := Option.map_eq_some_iff.mp hstep
  rcases poolStep_performs hok hpool with ⟨hnone, hsame⟩ | ⟨t, ws, ht, hbody, hperform⟩
  · refine Or.inl ⟨hnone, hsame, ?_⟩
    simp [addressNotes, hnone]
  · exact Or.inr ⟨t, ws, ht, hbody, hperform, rfl⟩

/-- A step that does not clash keeps the one address. -/
theorem Addressed.step (h : Addressed x.1.committed x.2) (hok : PoolOk (triggerStore P) x.1)
    (hhooked : Hooked x e) (hclash : ¬ Clashes x e) (hstep : addressStep P x e = some x') :
    Addressed x'.1.committed x'.2 := by
  rcases addressStep_performs hok hstep with
    ⟨-, hsame, hnotes⟩ | ⟨t, ws, ht, hbody, hperform, hnotes⟩
  · rw [hsame, hnotes]
    exact h
  have hanchored : x'.1.committed.Anchored :=
    perform_keeps (fun _ _ _ hs hexec => hs.exec hexec) h.anchored hperform
  obtain ⟨hlive, hhook⟩ := hhooked t ht
  rw [hnotes, addressNotes, ht]
  cases hcall : t.call with
  | getDraft ids =>
      rw [hcall] at hbody
      simp only [hcall, List.append_nil]
      rcases getDraft_effect hbody hperform with hsame | ⟨id, hfresh, hdrafted⟩
      · rw [hsame]
        exact h
      · have hother := h.fresh hfresh
        exact h.drafted hanchored hdrafted (fun r hr hc => absurd hc (hother r hr))
          fun r hr => hother r (hdrafted.keptRegistrations.subset hr)
  | replaceDraft ids revision graph =>
      rw [hcall] at hbody
      simp only [hcall, List.append_nil]
      obtain ⟨draft, hdraft, -, hdrafted, hclear, -⟩ :=
        replaceDraft_effect h.anchored hbody hperform
      have hsaved : savedInto t = some draft.id := by
        simp only [savedInto, hcall, hdraft, Option.map_some]
      refine h.drafted hanchored hdrafted (fun r hr hversion => ?_) hclear
      by_contra hkept
      exact hclash ⟨t, ht, Or.inr ⟨draft.id, hsaved, r, hr, hversion, hkept⟩⟩
  | publish token scheduleId now =>
      rw [hcall] at hbody
      obtain ⟨version, heffect⟩ := publish_effect hbody hperform
      obtain ⟨row, hdraft⟩ := heffect.draft
      have hpromoted : promoted t = some version := by
        simp only [promoted, hcall, hdraft, Option.map_some]
      simp only [hcall, hpromoted, Option.bind_some]
      refine h.published hanchored heffect (hhook version hpromoted) fun hnone => ?_
      by_contra hsome
      exact hclash ⟨t, ht, Or.inl ⟨by simp [hpromoted], hnone, hsome⟩⟩
  | softDelete =>
      rw [hcall] at hlive
      cases hlive
  | revoke digest =>
      rw [hcall] at hbody
      obtain rfl := Option.some.inj hbody
      obtain ⟨d, hexec, happly⟩ := perform_singleton.mp hperform
      obtain rfl := Option.some.inj hexec
      simp only [hcall]
      exact h.revoked hanchored happly

/-- A step that clashes leaves two addresses, or one that no longer resolves. -/
theorem Addressed.lost (h : Addressed x.1.committed x.2) (hok : PoolOk (triggerStore P) x.1)
    (hhooked : Hooked x e) (hclash : Clashes x e) (hstep : addressStep P x e = some x') :
    ¬ OneAddress x' := by
  intro hone
  obtain ⟨hsingle, hresolves⟩ := hone
  obtain ⟨t, ht, hcase⟩ := hclash
  rcases addressStep_performs hok hstep with ⟨hnone, -⟩ | ⟨u, ws, hu, hbody, hperform, hnotes⟩
  · rw [hnone] at ht
    cases ht
  obtain rfl : u = t := Option.some.inj (hu.symm.trans ht)
  rcases hcase with ⟨hpublish, hunseen, hthere⟩ | ⟨version, hsaved, r, hr, hversion, hkept⟩
  · unfold promoted at hpublish
    split at hpublish
    · rename_i token scheduleId now hcall
      rw [hcall] at hbody
      obtain ⟨version, heffect⟩ := publish_effect hbody hperform
      obtain ⟨row, hdraft⟩ := heffect.draft
      have hhook := (hhooked u hu).2 version (by simp only [promoted, hcall, hdraft]; rfl)
      cases heffect.webhook with
      | absent hnone hsame =>
          rw [hnone] at hhook
          cases hhook
      | pointed hook existing hhook hexisting hmem hrows =>
          cases hunseen.symm.trans hexisting
      | minted hook hhook hnone hnew hrows =>
          have hlength : 0 < x.1.committed.registrations.length := List.length_pos_iff.mpr hthere
          rw [hrows, List.length_append, List.length_singleton] at hsingle
          omega
    · exact hpublish rfl
  · unfold savedInto at hsaved
    split at hsaved
    · rename_i ids revision graph hcall
      rw [hcall] at hbody
      obtain ⟨draft, hdraft, -, hdrafted, hclear, -⟩ :=
        replaceDraft_effect h.anchored hbody hperform
      rw [hdraft, Option.map_some, Option.mem_some_iff] at hsaved
      have hquiet : x'.2 = x.2 := by
        rw [hnotes, addressNotes, hu]
        simp only [hcall, List.append_nil]
      rw [hquiet] at hresolves
      obtain ⟨kept, hmem, hdigest⟩ :=
        registered_of_resolves (hresolves r.tokenDigest (h.noted r hr) hkept)
      -- It was the only one, and it pointed at the version that was saved.
      have honly : kept = r :=
        eq_of_single h.single (hdrafted.keptRegistrations.subset hmem) hr
      exact hclear kept hmem (by rw [honly, hversion, hsaved])
    · cases hsaved

/--
**A workflow has one webhook address for life, in exactly the runs in which no commit
clashes.**  In every run of any number of calls on one workflow, in any order of their
steps, whose published versions all have a webhook trigger and which do not delete it: at
most one registration exists in every state and every address that was handed out and not
revoked resolves, if and only if no publish that found no registration commits beside one
and no save commits on the version that an unrevoked registration points at.
-/
theorem one_address_iff {events : List (TriggerEvent Value ι)}
    (h : Trace.run (addressStep P) (Addresses.start Value ι) events = some x)
    (hhooked : Trace.Along (addressStep P) Hooked (Addresses.start Value ι) events) :
    Trace.Visits (addressStep P) OneAddress (Addresses.start Value ι) events ↔
      Trace.Along (addressStep P) (fun x e => ¬ Clashes x e) (Addresses.start Value ι) events := by
  refine Trace.visits_iff_along (I := fun x => Addressed x.1.committed x.2) Addressed.start ?_ ?_ ?_
    h hhooked
  · intro y hy
    exact ⟨hy.single, fun digest => hy.resolves⟩
  · intro tr y f y' hrun hy hdomain hclash hstep
    exact hy.step (poolOk (Trace.run_noting hrun)) hdomain hclash hstep
  · intro tr y f y' hrun hy hdomain hstep hone hclash
    exact hy.lost (poolOk (Trace.run_noting hrun)) hdomain hclash hstep hone

end Runs

/-! ### Two publishes of one draft -/

/-- A draft with a webhook trigger is made and saved, and publishing it begins. -/
def firstPublish : List (TriggerEvent String Nat) :=
  wholeTriggerCall 0 (.replaceDraft ⟨1, 1, 1⟩ 1 hookGraph) 6 ++ [.begin 1 (.publish "first" 1 0)]

/-- It is published, edited, published once more, and its address is revoked. -/
def inOrder : List (TriggerEvent String Nat) :=
  firstPublish ++ List.replicate 3 (.issue 1) ++ [.commit 1] ++
    wholeTriggerCall 2 (.replaceDraft ⟨2, 2, 2⟩ 1 hookGraph) 10 ++
    wholeTriggerCall 3 (.publish "second" 1 0) 3 ++
    wholeTriggerCall 4 (.revoke "digest of first") 1

/-- One call after another, the workflow keeps its one address. -/
theorem inOrder_one_address :
    Trace.Visits (addressStep minutePorts) OneAddress (Addresses.start String Nat) inOrder := by
  have heval : (Trace.run (addressStep minutePorts) (Addresses.start String Nat) inOrder).isSome
      = true := by
    decide +kernel
  obtain ⟨x, hrun⟩ := Option.isSome_iff_exists.mp heval
  exact (one_address_iff hrun (by decide +kernel)).mpr (by decide +kernel)

/-- A second publish of the draft begins before the first one commits, and goes on after it. -/
def twoPublishes : List (TriggerEvent String Nat) :=
  firstPublish ++ [.begin 2 (.publish "second" 2 0)] ++ List.replicate 3 (.issue 1) ++
    [.commit 1] ++ List.replicate 3 (.issue 2) ++ [.commit 2]

/-- Both publishes commit, and the workflow has two registrations and two addresses. -/
theorem twoPublishes_two_addresses :
    ∃ x, Trace.run (addressStep minutePorts) (Addresses.start String Nat) twoPublishes = some x ∧
      Trace.Along (addressStep minutePorts) Hooked (Addresses.start String Nat) twoPublishes ∧
      x.2 = [.minted "digest of first", .minted "digest of second"] ∧
      x.1.committed.registrations.length = 2 ∧
      ¬ Trace.Visits (addressStep minutePorts) OneAddress (Addresses.start String Nat)
        twoPublishes := by
  have heval : (Trace.run (addressStep minutePorts) (Addresses.start String Nat) twoPublishes).map
      (fun x => (x.2, x.1.committed.registrations.length)) =
        some ([.minted "digest of first", .minted "digest of second"], 2) := by
    decide +kernel
  obtain ⟨x, hrun, hvalues⟩ := Option.map_eq_some_iff.mp heval
  obtain ⟨hnotes, htwo⟩ := Prod.mk.inj hvalues
  refine ⟨x, hrun, by decide +kernel, hnotes, htwo, fun hvisits => ?_⟩
  have hone := (hvisits.last hrun).1
  rw [htwo] at hone
  exact absurd hone (by decide)

end Orqent
