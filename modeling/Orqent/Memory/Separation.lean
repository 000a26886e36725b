/-
Other organizations' uploads might as well not have happened.

Two states look the same to an organization if its rows, its namespace and its uploads
under way are the same.  An event of one of its uploads keeps two such states alike, and an
event of another organization's keeps the state it happened in like the one it did not
happen in.  So dropping the others' events from a run leaves what is retrieved as it was.
-/
import Orqent.Memory.Retrieval

namespace Orqent

variable {F ι : Type}

/-- The two states look the same to the organization; the uploads in `mine` are its own. -/
structure SameFor (mine : ι → Bool) (organizationId : Nat) (ns : String) (s s' : Corpora F ι) :
    Prop where
  documents : s.documents organizationId = s'.documents organizationId
  vectors : s.vectors ns = s'.vectors ns
  opened : ∀ i, mine i = true → s.opened i = s'.opened i
  owned : ∀ i u, s.opened i = some u → (mine i = true ↔ u.organizationId = organizationId) ∧
    (mine i = true ↔ u.vectorNamespace = ns)

variable {mine : ι → Bool} {organizationId : Nat} {ns : String} {s s' : Corpora F ι} {i : ι}
  {u : Uploading F} {collate : Text → Text} {sha256 : Text → String}

/-- The upload is the organization's exactly if it is in `mine`. -/
def Owned (mine : ι → Bool) (organizationId : Nat) (ns : String) (i : ι) (u : Uploading F) :
    Prop :=
  (mine i = true ↔ u.organizationId = organizationId) ∧ (mine i = true ↔ u.vectorNamespace = ns)

/-- Another organization's upload is of another organization and another namespace. -/
theorem Owned.ne (hu : Owned mine organizationId ns i u) (hmine : mine i = false) :
    organizationId ≠ u.organizationId ∧ ns ≠ u.vectorNamespace := by
  constructor
  · intro hc
    rw [hu.1.mpr hc.symm] at hmine
    cases hmine
  · intro hc
    rw [hu.2.mpr hc.symm] at hmine
    cases hmine

namespace SameFor

theorem setVectors (h : SameFor mine organizationId ns s s') (vectors : VectorStore F) :
    SameFor mine organizationId ns (s.setVectors ns vectors) (s'.setVectors ns vectors) where
  documents := h.documents
  vectors := by simp [Corpora.setVectors]
  opened := h.opened
  owned := h.owned

theorem setDocuments (h : SameFor mine organizationId ns s s') (documents : Dict Text Document) :
    SameFor mine organizationId ns (s.setDocuments organizationId documents)
      (s'.setDocuments organizationId documents) where
  documents := by simp [Corpora.setDocuments]
  vectors := h.vectors
  opened := h.opened
  owned := h.owned

theorem setVectors_other (h : SameFor mine organizationId ns s s') {ns' : String} (hns : ns ≠ ns')
    (vectors : VectorStore F) : SameFor mine organizationId ns (s.setVectors ns' vectors) s' where
  documents := h.documents
  vectors := (Function.update_of_ne hns ..).trans h.vectors
  opened := h.opened
  owned := h.owned

theorem setDocuments_other (h : SameFor mine organizationId ns s s') {organizationId' : Nat}
    (horg : organizationId ≠ organizationId') (documents : Dict Text Document) :
    SameFor mine organizationId ns (s.setDocuments organizationId' documents) s' where
  documents := (Function.update_of_ne horg ..).trans h.documents
  vectors := h.vectors
  opened := h.opened
  owned := h.owned

variable [DecidableEq ι]

theorem owned_update (h : SameFor mine organizationId ns s s') {v : Option (Uploading F)}
    (hv : ∀ u, v = some u → Owned mine organizationId ns i u) :
    ∀ j u, Function.update s.opened i v j = some u → Owned mine organizationId ns j u := by
  intro j u hu
  by_cases hji : j = i
  · rw [hji, Function.update_self] at hu
    exact hji ▸ hv u hu
  · rw [Function.update_of_ne hji] at hu
    exact h.owned j u hu

/-! ### An upload of the organization -/

theorem opened_update (h : SameFor mine organizationId ns s s') (v : Option (Uploading F)) :
    ∀ j, mine j = true → Function.update s.opened i v j = Function.update s'.opened i v j := by
  intro j hj
  by_cases hji : j = i
  · rw [hji, Function.update_self, Function.update_self]
  · rw [Function.update_of_ne hji, Function.update_of_ne hji]
    exact h.opened j hj

theorem close (h : SameFor mine organizationId ns s s') (i : ι) :
    SameFor mine organizationId ns (s.close i) (s'.close i) where
  documents := h.documents
  vectors := h.vectors
  opened := h.opened_update none
  owned := h.owned_update fun u hu => by cases hu

theorem go (h : SameFor mine organizationId ns s s') (hu : Owned mine organizationId ns i u)
    (phase : UploadPhase F) :
    SameFor mine organizationId ns (s.go i u phase) (s'.go i u phase) where
  documents := h.documents
  vectors := h.vectors
  opened := h.opened_update _
  owned := h.owned_update fun _ hv => Option.some.inj hv ▸ hu

theorem stage (h : SameFor mine organizationId ns s s') (hu : Owned mine organizationId ns i u)
    (hmine : mine i = true) :
    SameFor mine organizationId ns (s.stage collate sha256 i u) (s'.stage collate sha256 i u) := by
  have horg := hu.1.mp hmine
  unfold Corpora.stage
  dsimp only
  rw [horg, ← h.documents]
  split
  · exact h.close i
  · split
    · exact h.close i
    · split
      · exact h.close i
      · exact h.go hu _

theorem clear (h : SameFor mine organizationId ns s s') (hu : Owned mine organizationId ns i u)
    (hmine : mine i = true) (document : Document) (embeddings : List (List F)) :
    SameFor mine organizationId ns (s.cleared i u document embeddings)
      (s'.cleared i u document embeddings) := by
  have hns := hu.2.mp hmine
  unfold Corpora.cleared
  rw [hns, ← h.vectors]
  exact (h.setVectors _).go hu _

theorem write (h : SameFor mine organizationId ns s s') (hu : Owned mine organizationId ns i u)
    (hmine : mine i = true) (document : Document) (embeddings : List (List F)) :
    SameFor mine organizationId ns (s.write i u document embeddings)
      (s'.write i u document embeddings) := by
  have hns := hu.2.mp hmine
  unfold Corpora.write
  dsimp only
  rw [hns, ← h.vectors]
  split
  · exact h.close i
  · exact (h.setVectors _).go hu _

theorem commit (h : SameFor mine organizationId ns s s') (hu : Owned mine organizationId ns i u)
    (hmine : mine i = true) (document : Document) :
    SameFor mine organizationId ns (s.commit collate sha256 i u document)
      (s'.commit collate sha256 i u document) := by
  have horg := hu.1.mp hmine
  unfold Corpora.commit
  dsimp only
  rw [horg, ← h.documents]
  split
  · exact (h.setDocuments _).close i
  · exact h.close i

/-! ### An upload of another organization -/

theorem opened_other (h : SameFor mine organizationId ns s s') (hmine : mine i = false)
    (v : Option (Uploading F)) :
    ∀ j, mine j = true → Function.update s.opened i v j = s'.opened j := by
  intro j hj
  have hji : j ≠ i := by
    rintro rfl
    rw [hj] at hmine
    cases hmine
  rw [Function.update_of_ne hji]
  exact h.opened j hj

theorem close_other (h : SameFor mine organizationId ns s s') (hmine : mine i = false) :
    SameFor mine organizationId ns (s.close i) s' where
  documents := h.documents
  vectors := h.vectors
  opened := h.opened_other hmine none
  owned := h.owned_update fun u hu => by cases hu

theorem go_other (h : SameFor mine organizationId ns s s') (hmine : mine i = false)
    (hu : Owned mine organizationId ns i u) (phase : UploadPhase F) :
    SameFor mine organizationId ns (s.go i u phase) s' where
  documents := h.documents
  vectors := h.vectors
  opened := h.opened_other hmine _
  owned := h.owned_update fun _ hv => Option.some.inj hv ▸ hu

theorem stage_other (h : SameFor mine organizationId ns s s') (hmine : mine i = false)
    (hu : Owned mine organizationId ns i u) :
    SameFor mine organizationId ns (s.stage collate sha256 i u) s' := by
  unfold Corpora.stage
  dsimp only
  split
  · exact h.close_other hmine
  · split
    · exact h.close_other hmine
    · split
      · exact h.close_other hmine
      · exact h.go_other hmine hu _

theorem clear_other (h : SameFor mine organizationId ns s s') (hmine : mine i = false)
    (hu : Owned mine organizationId ns i u) (document : Document) (embeddings : List (List F)) :
    SameFor mine organizationId ns (s.cleared i u document embeddings) s' :=
  (h.setVectors_other (hu.ne hmine).2 _).go_other hmine hu _

theorem write_other (h : SameFor mine organizationId ns s s') (hmine : mine i = false)
    (hu : Owned mine organizationId ns i u) (document : Document) (embeddings : List (List F)) :
    SameFor mine organizationId ns (s.write i u document embeddings) s' := by
  unfold Corpora.write
  dsimp only
  split
  · exact h.close_other hmine
  · exact (h.setVectors_other (hu.ne hmine).2 _).go_other hmine hu _

theorem commit_other (h : SameFor mine organizationId ns s s') (hmine : mine i = false)
    (hu : Owned mine organizationId ns i u) (document : Document) :
    SameFor mine organizationId ns (s.commit collate sha256 i u document) s' := by
  unfold Corpora.commit
  dsimp only
  split
  · exact (h.setDocuments_other (hu.ne hmine).1 _).close_other hmine
  · exact h.close_other hmine

end SameFor

/-! ### Runs -/

variable {d : Directory} {e : UploadEvent F ι} {t : Corpora F ι}

/-- A begin is the organization's exactly if its caller is a member. -/
def BeginsOwned (d : Directory) (mine : ι → Bool) (organizationId : Nat) (ns : String) :
    UploadEvent F ι → Prop
  | .begin i u => (mine i = true → (d.caller u.caller).isSome) ∧
      ∀ organization publicId, d.caller u.caller = some (organization, publicId) →
        Owned mine organizationId ns i ⟨u, organization, namespaceFor publicId, .identified⟩
  | _ => True

theorem Directory.caller_organization {publicId : String} {o : Nat × String}
    (h : d.caller publicId = some o) :
    o ∈ d.organizations ∧ d.organizations.find? (fun o' => o'.1 = o.1) = some o := by
  obtain ⟨user, -, hfind⟩ := Option.bind_eq_some_iff.mp h
  have hid : o.1 = user.2 := by simpa using List.find?_some hfind
  exact ⟨List.mem_of_find?_eq_some hfind, hid ▸ hfind⟩

/-- A begin is as its caller's membership says. -/
theorem beginsOwned_of_member {publicId : String}
    (horganization : d.organizations.find? (fun o => o.1 = organizationId) =
      some (organizationId, publicId))
    (hdistinct : ∀ o ∈ d.organizations, o.2 = publicId → o.1 = organizationId)
    (hmine : ∀ i u, e = .begin i u →
      (mine i = true ↔ ∃ p, d.caller u.caller = some (organizationId, p))) :
    BeginsOwned d mine organizationId (namespaceFor publicId) e := by
  cases e with
  | begin i u =>
      have hmember := hmine i u rfl
      refine ⟨fun hi => ?_, fun organization publicId' hcaller => ?_⟩
      · obtain ⟨p, hp⟩ := hmember.mp hi
        rw [hp]
        rfl
      · obtain ⟨hmem, hfind⟩ := Directory.caller_organization hcaller
        have hsame : mine i = true ↔ organization = organizationId := by
          rw [hmember, hcaller]
          constructor
          · rintro ⟨p, hp⟩
            exact congrArg Prod.fst (Option.some.inj hp)
          · rintro rfl
            exact ⟨publicId', rfl⟩
        refine ⟨hsame, hsame.trans ⟨?_, fun hns => ?_⟩⟩
        · rintro rfl
          rw [horganization] at hfind
          exact congrArg (fun o => namespaceFor o.2) (Option.some.inj hfind).symm
        · exact hdistinct _ hmem (namespaceFor_inj hns)
  | _ => trivial

variable [DecidableEq ι]

theorem SameFor.step_mine (h : SameFor mine organizationId ns s s')
    (hbegins : BeginsOwned d mine organizationId ns e) (hmine : mine e.upload = true)
    (hstep : s.step collate sha256 d e = some t) :
    ∃ t', s'.step collate sha256 d e = some t' ∧ SameFor mine organizationId ns t t' := by
  have hopened := h.opened e.upload hmine
  cases e with
  | begin i u =>
      dsimp only [UploadEvent.upload] at hopened hmine
      unfold Corpora.step at hstep ⊢
      dsimp only at hstep ⊢
      rw [← hopened]
      split at hstep
      · rename_i organization publicId hfree hcaller
        obtain rfl := Option.some.inj hstep
        exact ⟨_, rfl, h.go (hbegins.2 _ _ hcaller) _⟩
      · rename_i hfree hcaller
        have hsome := hbegins.1 hmine
        rw [hcaller] at hsome
        cases hsome
      · cases hstep
  | stage i =>
      dsimp only [UploadEvent.upload] at hopened hmine
      unfold Corpora.step at hstep ⊢
      dsimp only at hstep ⊢
      rw [← hopened]
      split at hstep
      · rename_i u hu
        split at hstep
        · rename_i hphase
          obtain rfl := Option.some.inj hstep
          exact ⟨_, rfl, h.stage (h.owned i u hu) hmine⟩
        · cases hstep
      · cases hstep
  | clear i =>
      dsimp only [UploadEvent.upload] at hopened hmine
      unfold Corpora.step at hstep ⊢
      dsimp only at hstep ⊢
      rw [← hopened]
      split at hstep
      · rename_i u hu
        split at hstep
        · rename_i document embeddings hphase
          obtain rfl := Option.some.inj hstep
          exact ⟨_, rfl, h.clear (h.owned i u hu) hmine document embeddings⟩
        · cases hstep
      · cases hstep
  | write i =>
      dsimp only [UploadEvent.upload] at hopened hmine
      unfold Corpora.step at hstep ⊢
      dsimp only at hstep ⊢
      rw [← hopened]
      split at hstep
      · rename_i u hu
        split at hstep
        · rename_i document embeddings hphase
          obtain rfl := Option.some.inj hstep
          exact ⟨_, rfl, h.write (h.owned i u hu) hmine document embeddings⟩
        · cases hstep
      · cases hstep
  | commit i =>
      dsimp only [UploadEvent.upload] at hopened hmine
      unfold Corpora.step at hstep ⊢
      dsimp only at hstep ⊢
      rw [← hopened]
      split at hstep
      · rename_i u hu
        split at hstep
        · rename_i document hphase
          obtain rfl := Option.some.inj hstep
          exact ⟨_, rfl, h.commit (h.owned i u hu) hmine document⟩
        · cases hstep
      · cases hstep
  | abort i =>
      dsimp only [UploadEvent.upload] at hopened hmine
      obtain ⟨u, hu, rfl⟩ := Option.map_eq_some_iff.mp hstep
      refine ⟨s'.close i, ?_, h.close i⟩
      unfold Corpora.step
      dsimp only
      rw [← hopened, hu]
      rfl

theorem SameFor.step_other (h : SameFor mine organizationId ns s s')
    (hbegins : BeginsOwned d mine organizationId ns e) (hmine : mine e.upload = false)
    (hstep : s.step collate sha256 d e = some t) : SameFor mine organizationId ns t s' := by
  cases e with
  | begin i u =>
      unfold Corpora.step at hstep
      dsimp only at hstep
      split at hstep
      · rename_i organization publicId hfree hcaller
        obtain rfl := Option.some.inj hstep
        exact h.go_other hmine (hbegins.2 _ _ hcaller) _
      · obtain rfl := Option.some.inj hstep
        exact h
      · cases hstep
  | abort i =>
      obtain ⟨u, hu, rfl⟩ := Option.map_eq_some_iff.mp hstep
      exact h.close_other hmine
  | stage i =>
      unfold Corpora.step at hstep
      dsimp only at hstep
      split at hstep
      · rename_i u hu
        split at hstep
        · obtain rfl := Option.some.inj hstep
          exact h.stage_other hmine (h.owned i u hu)
        · cases hstep
      · cases hstep
  | clear i =>
      unfold Corpora.step at hstep
      dsimp only at hstep
      split at hstep
      · rename_i u hu
        split at hstep
        · obtain rfl := Option.some.inj hstep
          exact h.clear_other hmine (h.owned i u hu) _ _
        · cases hstep
      · cases hstep
  | write i =>
      unfold Corpora.step at hstep
      dsimp only at hstep
      split at hstep
      · rename_i u hu
        split at hstep
        · obtain rfl := Option.some.inj hstep
          exact h.write_other hmine (h.owned i u hu) _ _
        · cases hstep
      · cases hstep
  | commit i =>
      unfold Corpora.step at hstep
      dsimp only at hstep
      split at hstep
      · rename_i u hu
        split at hstep
        · obtain rfl := Option.some.inj hstep
          exact h.commit_other hmine (h.owned i u hu) _
        · cases hstep
      · cases hstep

theorem sameFor_run {events : List (UploadEvent F ι)}
    (hbegins : ∀ e ∈ events, BeginsOwned d mine organizationId ns e)
    (hrun : Trace.run (Corpora.step collate sha256 d) Corpora.start events = some s) :
    ∃ s', Trace.run (Corpora.step collate sha256 d) Corpora.start
        (events.filter fun e => mine e.upload) = some s' ∧ SameFor mine organizationId ns s s' := by
  refine Trace.run_induction (P := fun events s =>
    (∀ e ∈ events, BeginsOwned d mine organizationId ns e) →
      ∃ s', Trace.run (Corpora.step collate sha256 d) Corpora.start
        (events.filter fun e => mine e.upload) = some s' ∧ SameFor mine organizationId ns s s')
    ?_ ?_ hrun hbegins
  · intro _
    refine ⟨Corpora.start, rfl, rfl, rfl, fun _ _ => rfl, fun i u hu => ?_⟩
    cases hu
  · intro before s e t _ ih hstep hbegins
    obtain ⟨s', hrun', hsame⟩ := ih fun e he => hbegins e (List.mem_append_left _ he)
    have hbegin := hbegins e (List.mem_append_right _ (List.mem_singleton_self e))
    rw [List.filter_append, List.filter_singleton]
    cases hmine : mine e.upload with
    | true =>
        obtain ⟨t', hstep', hsame'⟩ := hsame.step_mine hbegin hmine hstep
        exact ⟨t', Trace.run_snoc hrun' hstep', hsame'⟩
    | false =>
        refine ⟨s', ?_, hsame.step_other hbegin hmine hstep⟩
        simpa using hrun'

/--
**Other organizations' uploads might as well not have happened.**  Drop from any run of
uploads, whatever fails in it, the events of the uploads that no member of the organization
began: what is left is a run, and after it the organization's documents and vectors, and
so every answer to a retrieval, are what they were.
-/
theorem others_uploads_invisible (collate : Text → Text) (sha256 : Text → String)
    (d : Directory) (events : List (UploadEvent F ι)) (s : Corpora F ι) (mine : ι → Bool)
    (organizationId : Nat)
    (publicId : String)
    (horganization : d.organizations.find? (fun o => o.1 = organizationId) =
      some (organizationId, publicId))
    (hdistinct : ∀ o ∈ d.organizations, o.2 = publicId → o.1 = organizationId)
    (hmine : ∀ i u, .begin i u ∈ events →
      (mine i = true ↔ ∃ p, d.caller u.caller = some (organizationId, p)))
    (hrun : Trace.run (Corpora.step collate sha256 d) Corpora.start events = some s) :
    ∃ s', Trace.run (Corpora.step collate sha256 d) Corpora.start
        (events.filter fun e => mine e.upload) = some s' ∧
      s'.memory organizationId publicId = s.memory organizationId publicId ∧
      ∀ (P : RetrievalPorts F) query topK,
        retrieve P s'.vectors publicId query topK = retrieve P s.vectors publicId query topK := by
  have hbegins : ∀ e ∈ events, BeginsOwned d mine organizationId (namespaceFor publicId) e :=
    fun e he => beginsOwned_of_member horganization hdistinct fun i u heq => hmine i u (heq ▸ he)
  obtain ⟨s', hrun', hsame⟩ := sameFor_run hbegins hrun
  refine ⟨s', hrun', congrArg₂ Memory.mk hsame.documents.symm hsame.vectors.symm, ?_⟩
  intro P query topK
  unfold retrieve
  rw [hsame.vectors]

/-- Acme's upload, with and without the other. -/
theorem acme_undisturbed : ∃ s s',
    Trace.run (Corpora.step id (fun text => String.ofList text) twoOrganizations) Corpora.start
      sideBySide = some s ∧
    Trace.run (Corpora.step id (fun text => String.ofList text) twoOrganizations) Corpora.start
      (sideBySide.filter fun e => e.upload == 0) = some s' ∧
    s'.memory 1 "acme" = s.memory 1 "acme" ∧
    ∀ (P : RetrievalPorts Nat) query topK,
      retrieve P s'.vectors "acme" query topK = retrieve P s.vectors "acme" query topK := by
  have heval : (Trace.run (Corpora.step id (fun text => String.ofList text) twoOrganizations)
      Corpora.start sideBySide).isSome = true := by
    decide +kernel
  obtain ⟨s, hrun⟩ := Option.isSome_iff_exists.mp heval
  have hmine : ∀ i u, .begin i u ∈ sideBySide →
      ((i == 0) = true ↔ ∃ p, twoOrganizations.caller u.caller = some (1, p)) := by
    intro i u h
    simp only [sideBySide, List.mem_cons, List.not_mem_nil, or_false, reduceCtorEq,
      UploadEvent.begin.injEq] at h
    obtain ⟨rfl, rfl⟩ | ⟨rfl, rfl⟩ := h
    · exact ⟨fun _ => ⟨"acme", by decide +kernel⟩, fun _ => rfl⟩
    · have hbob : twoOrganizations.caller "bob" = some (2, "globex") := by decide +kernel
      constructor
      · intro h
        cases h
      · rintro ⟨p, hp⟩
        have htwo := congrArg (Option.map Prod.fst) (hbob.symm.trans hp)
        simp at htwo
  obtain ⟨s', hrun', hrest⟩ := others_uploads_invisible id _ twoOrganizations sideBySide s
    (fun i => i == 0) 1 "acme" (by decide +kernel) (by decide +kernel) hmine hrun
  exact ⟨s, s', hrun, hrun', hrest⟩

end Orqent
