/-
Do the two stores agree?

The content hash speaks for the row, and the vector store can move on without it: a call
that fails past its delete leaves the row as it was and the vectors not.  The next call
with the row's text is answered from the row.  And a first ingestion that fails at its
commit leaves vectors under an id that no row has, which no later call deletes.

Each call leaves a note of how far it got.  `IndexOk` says what the notes tell about the
vector store, so the condition `Trusts` is read off the notes alone.
-/
import Orqent.Lib.Trace
import Orqent.Memory.Ingest

namespace Orqent

variable {F : Type} {sha256 : Text → String} {externalId : Text} {c : IngestCall F}
  {m m' : Memory F}

/-! ### The property and the condition -/

/-- What a call has left behind, as far as the vectors are concerned. -/
structure Attempt where
  /-- It found no row. -/
  creating : Bool
  newPublicId : String
  text : Text
  reached : Reached
deriving DecidableEq, Repr

/-- One call after another, whatever it answers. -/
def ingestStep (sha256 : Text → String) (externalId : Text) (m : Memory F) (c : IngestCall F) :
    Option (Memory F) :=
  some (ingestDocument sha256 externalId c m).2

/-- What a call notes: whether it drew an id, and how far it came. -/
def attempts (sha256 : Text → String) (externalId : Text) (m : Memory F) (c : IngestCall F)
    (_ : Memory F) : List Attempt :=
  [⟨(m.found externalId).isNone, c.newPublicId, c.text, c.reached sha256 externalId m⟩]

/-- Every id that was generated for the document so far. -/
def generated (notes : List Attempt) : List String := notes.map Attempt.newPublicId

/-- A call that returns leaves one vector for each chunk of its text, and no other. -/
def VectorsAgree (sha256 : Text → String) (externalId : Text) (x : Memory F × List Attempt)
    (c : IngestCall F) : Prop :=
  ∀ r, (ingestDocument sha256 externalId c x.1).1 = .ok r →
    (ingestDocument sha256 externalId c x.1).2.vectors.belonging (generated x.2 ++ [c.newPublicId])
      = chunkEntries r.documentId c.text

/-- The last call that got past its delete. -/
def lastWrite (notes : List Attempt) : Option Attempt :=
  notes.reverse.find? fun n => n.reached.writes

/-- Some call that found no row failed at its commit. -/
def Orphaned (notes : List Attempt) : Prop :=
  ∃ n ∈ notes, n.creating = true ∧ n.reached = .committing

/--
A call that returns does so after no first ingestion failed at its commit; and if the row
answers it, the last call that got past its delete got past its upsert, with the chunks
of this text.
-/
def Trusts (sha256 : Text → String) (externalId : Text) (x : Memory F × List Attempt)
    (c : IngestCall F) : Prop :=
  (c.reached sha256 externalId x.1).returns = true →
    ¬ Orphaned x.2 ∧
      (c.reached sha256 externalId x.1 = .unchanged → ∃ n, lastWrite x.2 = some n ∧
        n.reached ≠ .upserting ∧
        (chunkText n.text).map Chunk.text = (chunkText c.text).map Chunk.text)

/-- What a write left under the document's id. -/
def Attempt.left (n : Attempt) (publicId : String) : List (String × Text) :=
  if n.reached = .upserting then [] else chunkEntries publicId n.text

/-- What the notes say about the stores; `Known` are the ids that were there before. -/
structure IndexOk (externalId : Text) (Known : String → Prop) (notes : List Attempt)
    (m : Memory F) : Prop where
  keyed : m.vectors.Keyed
  known : ∀ e ∈ m.vectors, ∀ id, e.2.documentId = some id → id ∈ generated notes ∨ Known id
  row : ∀ d, m.found externalId = some d → d.publicId ∈ generated notes ∧
    ∃ n, lastWrite notes = some n ∧ m.vectors.belonging [d.publicId] = n.left d.publicId
  /-- Vectors under an id that is not the row's are those of a first ingestion that failed. -/
  orphans : Orphaned notes ↔ ∃ e ∈ m.vectors, ∃ id ∈ generated notes,
    e.2.documentId = some id ∧ ∀ d, m.found externalId = some d → d.publicId ≠ id

/-! ### Notes -/

section Notes

variable {notes : List Attempt} {n : Attempt}

theorem lastWrite_snoc :
    lastWrite (notes ++ [n]) = if n.reached.writes then some n else lastWrite notes := by
  unfold lastWrite
  rw [List.reverse_append, List.reverse_singleton, List.singleton_append, List.find?_cons]
  split <;> simp_all

theorem orphaned_snoc : Orphaned (notes ++ [n]) ↔
    Orphaned notes ∨ n.creating = true ∧ n.reached = .committing := by
  simp [Orphaned, or_and_right, exists_or]

theorem generated_snoc : generated (notes ++ [n]) = generated notes ++ [n.newPublicId] := by
  simp [generated]

end Notes

/-! ### Reading the vector store -/

theorem belonging_append {ids : List String} {vectors others : VectorStore F} :
    VectorStore.belonging ids (vectors ++ others) =
      vectors.belonging ids ++ others.belonging ids := by
  simp [VectorStore.belonging]

theorem mem_belonging {ids : List String} {vectors : VectorStore F} {entry : String × Text} :
    entry ∈ vectors.belonging ids ↔
      ∃ e ∈ vectors, (∃ id ∈ ids, e.2.documentId = some id) ∧ (e.1, e.2.text) = entry := by
  unfold VectorStore.belonging
  simp only [List.mem_map, List.mem_filter, Option.any_eq_true, decide_eq_true_eq]
  constructor
  · rintro ⟨e, ⟨he, id, hid, hmem⟩, heq⟩
    exact ⟨e, he, ⟨id, hmem, hid⟩, heq⟩
  · rintro ⟨e, he, ⟨id, hmem, hid⟩, heq⟩
    exact ⟨e, ⟨he, id, hid, hmem⟩, heq⟩

theorem belonging_delete {publicId : String} {vectors : VectorStore F} :
    VectorStore.belonging [publicId] (vectors.deleteDocument publicId) = [] := by
  refine List.eq_nil_iff_forall_not_mem.mpr fun entry hentry => ?_
  obtain ⟨e, he, ⟨id, hid, hdoc⟩, -⟩ := mem_belonging.mp hentry
  rw [List.mem_singleton.mp hid] at hdoc
  exact (mem_deleteDocument.mp he).2 hdoc

theorem belonging_entries {publicId : String} {embeddings : List (List F)}
    (h : (chunkText c.text).length = embeddings.length) :
    VectorStore.belonging [publicId] (c.entries publicId embeddings) =
      chunkEntries publicId c.text := by
  rw [← entries_eq publicId h]
  unfold VectorStore.belonging
  rw [List.filter_eq_self.mpr]
  intro e he
  rw [entries_documentId he]
  simp

/-- Where only the row's vectors are there, they are all of the document's. -/
theorem belonging_eq {ids : List String} {publicId : String} {vectors : VectorStore F}
    (hmem : publicId ∈ ids)
    (h : ∀ e ∈ vectors, ∀ id ∈ ids, e.2.documentId = some id → id = publicId) :
    vectors.belonging ids = vectors.belonging [publicId] := by
  unfold VectorStore.belonging
  refine congrArg _ (List.filter_congr fun e he => ?_)
  cases hid : e.2.documentId with
  | none => rfl
  | some id =>
      simp only [Option.any_some, List.mem_singleton, decide_eq_decide]
      exact ⟨fun hc => h e he id hc hid, fun hc => hc ▸ hmem⟩

/-! ### What the stores hold, by the notes -/

section Ok

variable {Known : String → Prop} {notes : List Attempt}

/-- **The document's vectors are the row's last write, unless some are orphaned.** -/
theorem IndexOk.agrees_iff (h : IndexOk externalId Known notes m) {d : Document}
    (hfound : m.found externalId = some d) (text : Text) :
    m.vectors.belonging (generated notes) = chunkEntries d.publicId text ↔
      ¬ Orphaned notes ∧
        ∃ n, lastWrite notes = some n ∧ n.left d.publicId = chunkEntries d.publicId text := by
  obtain ⟨hmem, n, hlast, hrow⟩ := h.row d hfound
  have halone : ¬ Orphaned notes → m.vectors.belonging (generated notes) =
      m.vectors.belonging [d.publicId] := by
    intro horphaned
    refine belonging_eq hmem fun e he id hid hdoc => ?_
    by_contra hne
    refine horphaned (h.orphans.mpr ⟨e, he, id, hid, hdoc, fun d' hd' => ?_⟩)
    obtain rfl := Option.some.inj (hfound.symm.trans hd')
    exact Ne.symm hne
  constructor
  · intro heq
    have horphaned : ¬ Orphaned notes := by
      intro hc
      obtain ⟨e, he, id, hid, hdoc, hne⟩ := h.orphans.mp hc
      -- Its key is made of its own id, and every entry of the right side of the row's.
      have hentry : (e.1, e.2.text) ∈ chunkEntries d.publicId text :=
        heq ▸ mem_belonging.mpr ⟨e, he, ⟨id, hid, hdoc⟩, rfl⟩
      obtain ⟨chunk, -, hchunk⟩ := List.mem_map.mp hentry
      obtain ⟨id', n', hdoc', hkey⟩ := h.keyed.keys e he
      obtain rfl := Option.some.inj (hdoc.symm.trans hdoc')
      have hids := (chunkId_inj ((Prod.mk.inj hchunk).1.trans hkey)).1
      exact hne d hfound hids
    refine ⟨horphaned, n, hlast, ?_⟩
    rw [← hrow, ← halone horphaned]
    exact heq
  · rintro ⟨horphaned, n', hlast', hleft⟩
    obtain rfl := Option.some.inj (hlast.symm.trans hlast')
    rw [halone horphaned, hrow]
    exact hleft

/-- Nothing is stored under an id that has just been generated. -/
theorem IndexOk.fresh (h : IndexOk externalId Known notes m) {id : String}
    (hnew : id ∉ generated notes) (hunknown : ¬ Known id) :
    ∀ e ∈ m.vectors, e.2.documentId ≠ some id := by
  intro e he hc
  rcases h.known e he id hc with hold | hknown
  · exact hnew hold
  · exact hunknown hknown

/-- A note about a call that wrote nothing. -/
theorem IndexOk.keep (h : IndexOk externalId Known notes m) {n : Attempt}
    (hnew : n.newPublicId ∉ generated notes) (hunknown : ¬ Known n.newPublicId)
    (hwrites : n.reached.writes = false) : IndexOk externalId Known (notes ++ [n]) m where
  keyed := h.keyed
  known := by
    intro e he id hid
    rw [generated_snoc]
    exact (h.known e he id hid).imp_left (List.mem_append_left _)
  row := by
    intro d hd
    obtain ⟨hmem, hlast⟩ := h.row d hd
    rw [generated_snoc, lastWrite_snoc, if_neg (by simp [hwrites])]
    exact ⟨List.mem_append_left _ hmem, hlast⟩
  orphans := by
    have hnot : ¬ (n.creating = true ∧ n.reached = .committing) := by
      intro hc
      rw [hc.2] at hwrites
      cases hwrites
    rw [orphaned_snoc, or_iff_left hnot, h.orphans, generated_snoc]
    constructor
    · rintro ⟨e, he, id, hid, hrest⟩
      exact ⟨e, he, id, List.mem_append_left _ hid, hrest⟩
    · rintro ⟨e, he, id, hid, hdoc, hne⟩
      rcases List.mem_append.mp hid with hold | hlast
      · exact ⟨e, he, id, hold, hdoc, hne⟩
      · rw [List.mem_singleton.mp hlast] at hdoc
        exact absurd hdoc (h.fresh hnew hunknown e he)

theorem IndexOk.target_known (h : IndexOk externalId Known notes m) :
    c.target m externalId ∈ generated notes ++ [c.newPublicId] := by
  unfold IngestCall.target
  cases hfound : m.found externalId with
  | none => exact List.mem_append_right _ (List.mem_singleton_self _)
  | some d => exact List.mem_append_left _ (h.row d hfound).1

/-- No vector of another id than the row's, of those generated so far, is of the target. -/
theorem ne_target (hnew : c.newPublicId ∉ generated notes) {id : String}
    (hid : id ∈ generated notes)
    (hne : ∀ d, m.found externalId = some d → d.publicId ≠ id) : id ≠ c.target m externalId := by
  unfold IngestCall.target
  cases hfound : m.found externalId with
  | none =>
      rintro rfl
      exact hnew hid
  | some d => exact Ne.symm (hne d hfound)

/-- A note about a call that rewrote the target's vectors: `added` is what it put there. -/
theorem IndexOk.write (h : IndexOk externalId Known notes m) {n : Attempt}
    (added : VectorStore F) (hid : n.newPublicId = c.newPublicId)
    (hnew : c.newPublicId ∉ generated notes) (hunknown : ¬ Known c.newPublicId)
    (hcreating : n.creating = (m.found externalId).isNone) (hwrites : n.reached.writes = true)
    (hvectors : m'.vectors = m.vectors.deleteDocument (c.target m externalId) ++ added)
    (hkeyed : m'.vectors.Keyed)
    (hadded : ∀ e ∈ added, e.2.documentId = some (c.target m externalId))
    (hleft : added.belonging [c.target m externalId] = n.left (c.target m externalId))
    (hfound : m'.found externalId = m.found externalId ∨
      ∃ d, d.publicId = c.target m externalId ∧ m'.found externalId = some d)
    (hcommitting : n.reached = .committing → added ≠ [] ∧ m'.found externalId = m.found externalId)
    (hmissing : added ≠ [] → m'.found externalId = none → n.reached = .committing) :
    IndexOk externalId Known (notes ++ [n]) m' := by
  have htarget : ∀ d, m'.found externalId = some d → d.publicId = c.target m externalId := by
    intro d hd
    rcases hfound with hsame | ⟨d', hid', hd'⟩
    · rw [hsame] at hd
      rw [IngestCall.target, hd]
    · obtain rfl := Option.some.inj (hd.symm.trans hd')
      exact hid'
  have hbefore : ∀ d, m.found externalId = some d → d.publicId = c.target m externalId := by
    intro d hd
    rw [IngestCall.target, hd]
  have hgenerated : generated (notes ++ [n]) = generated notes ++ [c.newPublicId] := by
    rw [generated_snoc, hid]
  refine ⟨hkeyed, ?_, ?_, ?_⟩
  · intro e he id hdoc
    rw [hvectors] at he
    rw [hgenerated]
    rcases List.mem_append.mp he with hold | hnewer
    · exact (h.known e (mem_deleteDocument.mp hold).1 id hdoc).imp_left (List.mem_append_left _)
    · obtain rfl := Option.some.inj ((hadded e hnewer).symm.trans hdoc)
      exact Or.inl h.target_known
  · intro d hd
    rw [hgenerated, htarget d hd, lastWrite_snoc, if_pos hwrites, hvectors, belonging_append,
      belonging_delete, List.nil_append]
    exact ⟨h.target_known, n, rfl, hleft⟩
  · rw [orphaned_snoc, hgenerated, hvectors]
    constructor
    · rintro (hold | ⟨hnone, hreached⟩)
      · obtain ⟨e, he, id, hmem, hdoc, hne⟩ := h.orphans.mp hold
        have hother := ne_target hnew hmem hne
        have hkept : e ∈ m.vectors.deleteDocument (c.target m externalId) :=
          mem_deleteDocument.mpr ⟨he, fun hc => hother (Option.some.inj (hdoc.symm.trans hc))⟩
        refine ⟨e, List.mem_append_left _ hkept, id, List.mem_append_left _ hmem, hdoc, ?_⟩
        intro d hd
        rw [htarget d hd]
        exact Ne.symm hother
      · obtain ⟨hsome, hsame⟩ := hcommitting hreached
        obtain ⟨e, he⟩ := List.exists_mem_of_ne_nil _ hsome
        refine ⟨e, List.mem_append_right _ he, _, h.target_known, hadded e he, ?_⟩
        intro d hd
        rw [hcreating, ← hsame, hd] at hnone
        cases hnone
    · rintro ⟨e, he, id, hmem, hdoc, hne⟩
      rcases List.mem_append.mp he with hkept | hnewer
      · obtain ⟨hold, hother⟩ := mem_deleteDocument.mp hkept
        refine Or.inl (h.orphans.mpr ⟨e, hold, id, ?_, hdoc, ?_⟩)
        · rcases List.mem_append.mp hmem with hmem | hlast
          · exact hmem
          · rw [List.mem_singleton.mp hlast] at hdoc
            exact absurd hdoc (h.fresh hnew hunknown e hold)
        · intro d hd hc
          exact hother (by rw [hdoc, ← hc, hbefore d hd])
      · -- What was added is orphaned only if the row is still missing.
        obtain rfl := Option.some.inj ((hadded e hnewer).symm.trans hdoc)
        have hnone : m'.found externalId = none := by
          cases hd : m'.found externalId with
          | none => rfl
          | some d => exact absurd (htarget d hd) (hne d hd)
        have hsame : m'.found externalId = m.found externalId := by
          rcases hfound with hsame | ⟨d, -, hd⟩
          · exact hsame
          · rw [hnone] at hd
            cases hd
        refine Or.inr ⟨?_, hmissing (List.ne_nil_of_mem hnewer) hnone⟩
        rw [hcreating, ← hsame, hnone]
        rfl

end Ok

theorem entries_ne_nil {publicId : String} {embeddings : List (List F)}
    (hsome : chunkText c.text ≠ []) (hlength : (chunkText c.text).length = embeddings.length) :
    c.entries publicId embeddings ≠ [] := by
  intro hc
  have hentries := entries_eq publicId hlength
  rw [hc, chunkEntries] at hentries
  exact hsome (List.map_eq_nil_iff.mp hentries.symm)

/-- **The notes keep telling what is in the vector store.** -/
theorem IndexOk.step {Known : String → Prop} {notes : List Attempt}
    (h : IndexOk externalId Known notes m) (sha256 : Text → String)
    (hnew : c.newPublicId ∉ generated notes) (hunknown : ¬ Known c.newPublicId) :
    IndexOk externalId Known (notes ++ attempts sha256 externalId m c m)
      (ingestDocument sha256 externalId c m).2 := by
  have hcases := ingestDocument_ingests sha256 externalId c h.keyed
  unfold attempts
  generalize (ingestDocument sha256 externalId c m).1 = result at hcases
  generalize (ingestDocument sha256 externalId c m).2 = m' at hcases ⊢
  generalize c.reached sha256 externalId m = reached at hcases ⊢
  cases hcases with
  | kept reached e hnot hreturns => exact h.keep hnew hunknown hnot
  | unchanged d hfound hsome => exact h.keep hnew hunknown rfl
  | upserting =>
      refine h.write [] rfl hnew hunknown rfl rfl (by rw [List.append_nil]) h.keyed.delete
        ?_ rfl (Or.inl rfl) ?_ ?_
      · intro e he
        cases he
      · intro hc
        cases hc
      · exact fun hc => absurd rfl hc
  | committing embeddings hsome hlength =>
      refine h.write _ rfl hnew hunknown rfl rfl rfl (h.keyed.append_entries hlength)
        (fun e he => entries_documentId he) (belonging_entries hlength) (Or.inl rfl) ?_ ?_
      · exact fun _ => ⟨entries_ne_nil hsome hlength, rfl⟩
      · exact fun _ _ => rfl
  | done embeddings document hid hsome hlength =>
      have hrow : (m.documents.set (strip externalId) document).get? (strip externalId)
          = some document := by
        rw [Dict.get?_set, if_pos rfl]
      refine h.write _ rfl hnew hunknown rfl rfl rfl (h.keyed.append_entries hlength)
        (fun e he => entries_documentId he) (belonging_entries hlength)
        (Or.inr ⟨document, hid, hrow⟩) ?_ ?_
      · intro hc
        cases hc
      · intro _ hc
        exact absurd (hrow.symm.trans hc) (by simp)

/-- What a write left is what a text comes to: it was written, and has the same chunks. -/
theorem left_eq_iff {n : Attempt} {publicId : String} {text : Text} (hsome : chunkText text ≠ []) :
    n.left publicId = chunkEntries publicId text ↔ n.reached ≠ .upserting ∧
      (chunkText n.text).map Chunk.text = (chunkText text).map Chunk.text := by
  unfold Attempt.left
  split
  · rename_i hreached
    refine iff_of_false (fun hc => hsome ?_) fun hc => hc.1 hreached
    exact List.map_eq_nil_iff.mp hc.symm
  · rename_i hreached
    rw [chunkEntries_inj]
    exact (and_iff_right hreached).symm

/-- **A call agrees exactly when the notes can be trusted.** -/
theorem IndexOk.agree_iff_trusts {Known : String → Prop} {notes : List Attempt}
    (h : IndexOk externalId Known notes m) (hnew : c.newPublicId ∉ generated notes)
    (hunknown : ¬ Known c.newPublicId) :
    VectorsAgree sha256 externalId (m, notes) c ↔ Trusts sha256 externalId (m, notes) c := by
  have hafter := h.step sha256 hnew hunknown
  have hcases := ingestDocument_ingests sha256 externalId c h.keyed
  unfold attempts at hafter
  unfold VectorsAgree Trusts
  generalize (ingestDocument sha256 externalId c m).1 = result at hcases hafter ⊢
  generalize (ingestDocument sha256 externalId c m).2 = m' at hcases hafter ⊢
  generalize c.reached sha256 externalId m = reached at hcases hafter ⊢
  have hgenerated : ∀ creating, generated (notes ++ [⟨creating, c.newPublicId, c.text, reached⟩]) =
      generated notes ++ [c.newPublicId] := fun creating => generated_snoc
  cases hcases with
  | kept reached e hnot hreturns =>
      refine iff_of_true (fun r hr => by cases hr) fun hc => ?_
      rw [hreturns] at hc
      cases hc
  | unchanged d hfound hsome =>
      have hagrees := hafter.agrees_iff hfound c.text
      rw [hgenerated, orphaned_snoc, lastWrite_snoc, or_iff_left (by simp)] at hagrees
      have hproperty : (∀ r, Except.ok ⟨d.publicId, d.chunkCount, true⟩ = (Except.ok r :
          Except IngestError IngestionResult) →
            m.vectors.belonging (generated notes ++ [c.newPublicId]) =
              chunkEntries r.documentId c.text) ↔
          m.vectors.belonging (generated notes ++ [c.newPublicId]) =
            chunkEntries d.publicId c.text :=
        ⟨fun hr => hr _ rfl, fun heq r hr => by obtain rfl := Except.ok.inj hr; exact heq⟩
      rw [hproperty, hagrees]
      simp only [left_eq_iff hsome]
      exact ⟨fun hboth _ => ⟨hboth.1, fun _ => hboth.2⟩, fun hc => ⟨(hc rfl).1, (hc rfl).2 trivial⟩⟩
  | upserting => exact iff_of_true (fun r hr => by cases hr) fun hc => by cases hc
  | committing embeddings hsome hlength =>
      exact iff_of_true (fun r hr => by cases hr) fun hc => by cases hc
  | done embeddings document hid hsome hlength =>
      have hrow : (m.documents.set (strip externalId) document).get? (strip externalId)
          = some document := by
        rw [Dict.get?_set, if_pos rfl]
      have hagrees := hafter.agrees_iff hrow c.text
      rw [hgenerated, orphaned_snoc, lastWrite_snoc, or_iff_left (by simp), if_pos (by rfl),
        and_iff_left ⟨_, rfl, rfl⟩, hid] at hagrees
      refine Iff.trans ⟨fun hr => hr _ rfl, fun heq r hr => ?_⟩ (hagrees.trans ?_)
      · obtain rfl := Except.ok.inj hr
        exact heq
      · exact ⟨fun horphaned _ => ⟨horphaned, fun hc => by cases hc⟩, fun hc => (hc rfl).1⟩

/-- The stores before the document is first ingested. -/
theorem start_indexOk (hfound : m.found externalId = none) (hkeyed : m.vectors.Keyed) :
    IndexOk externalId (fun id => ∃ e ∈ m.vectors, e.2.documentId = some id) [] m where
  keyed := hkeyed
  known := fun e he id hid => Or.inr ⟨e, he, hid⟩
  row := by
    intro d hd
    rw [hfound] at hd
    cases hd
  orphans := by
    refine iff_of_false ?_ ?_
    · rintro ⟨n, hn, -⟩
      cases hn
    · rintro ⟨e, -, id, hid, -⟩
      cases hid

/-- Whatever was called, the notes tell what is in the vector store. -/
theorem run_indexOk {calls : List (IngestCall F)} {x : Memory F × List Attempt}
    (hfound : m.found externalId = none) (hkeyed : m.vectors.Keyed)
    (hrun : Trace.run (Trace.noting (ingestStep sha256 externalId) (attempts sha256 externalId))
      (m, []) calls = some x)
    (hnodup : (calls.map IngestCall.newPublicId).Nodup)
    (hfresh : ∀ c ∈ calls, ∀ e ∈ m.vectors, e.2.documentId ≠ some c.newPublicId) :
    generated x.2 = calls.map IngestCall.newPublicId ∧
      IndexOk externalId (fun id => ∃ e ∈ m.vectors, e.2.documentId = some id) x.2 x.1 := by
  refine Trace.run_induction (P := fun calls x =>
    (calls.map IngestCall.newPublicId).Nodup →
      (∀ c ∈ calls, ∀ e ∈ m.vectors, e.2.documentId ≠ some c.newPublicId) →
        generated x.2 = calls.map IngestCall.newPublicId ∧
          IndexOk externalId (fun id => ∃ e ∈ m.vectors, e.2.documentId = some id) x.2 x.1)
    ?_ ?_ hrun hnodup hfresh
  · exact fun _ _ => ⟨rfl, start_indexOk hfound hkeyed⟩
  · intro calls x c x' _ ih hstep hnodup hfresh
    obtain ⟨before, notes⟩ := x
    obtain rfl := Option.some.inj hstep
    rw [List.map_append, List.map_singleton, List.nodup_append] at hnodup
    obtain ⟨hgenerated, hok⟩ := ih hnodup.1 fun c hc => hfresh c (List.mem_append_left _ hc)
    have hnew : c.newPublicId ∉ generated notes := by
      rw [hgenerated]
      exact fun hc => hnodup.2.2 _ hc _ (List.mem_singleton_self _) rfl
    have hunknown : ¬ ∃ e ∈ m.vectors, e.2.documentId = some c.newPublicId := by
      rintro ⟨e, he, hid⟩
      exact hfresh c (List.mem_append_right _ (List.mem_singleton_self c)) e he hid
    refine ⟨?_, hok.step sha256 hnew hunknown⟩
    rw [List.map_append, ← hgenerated]
    exact generated_snoc

/--
**The record and the index agree, in exactly the histories that trust nothing stale.**
Whatever texts a document is ingested with, and whatever fails, from a namespace that does
not know the document and with a new id for every document created: each call that
returns leaves exactly one vector for each chunk of its text, under any id the document
ever had, if and only if no call returns after a first ingestion failed at its commit, and
none is answered from the row after a call of other chunks, or one that did not upsert, got
past its delete.
-/
theorem ingest_agrees_iff {calls : List (IngestCall F)} (hfound : m.found externalId = none)
    (hkeyed : m.vectors.Keyed) (hnodup : (calls.map IngestCall.newPublicId).Nodup)
    (hfresh : ∀ c ∈ calls, ∀ e ∈ m.vectors, e.2.documentId ≠ some c.newPublicId) :
    Trace.Along (Trace.noting (ingestStep sha256 externalId) (attempts sha256 externalId))
        (VectorsAgree sha256 externalId) (m, []) calls ↔
      Trace.Along (Trace.noting (ingestStep sha256 externalId) (attempts sha256 externalId))
        (Trusts sha256 externalId) (m, []) calls := by
  have hiff : ∀ before c after, calls = before ++ c :: after → ∀ x,
      Trace.run (Trace.noting (ingestStep sha256 externalId) (attempts sha256 externalId))
        (m, []) before = some x →
          (VectorsAgree sha256 externalId x c ↔ Trusts sha256 externalId x c) := by
    intro before c after hsplit x hrun
    rw [hsplit, List.map_append, List.map_cons, List.nodup_append] at hnodup
    obtain ⟨hgenerated, hok⟩ := run_indexOk hfound hkeyed hrun hnodup.1 fun c' hc' =>
      hfresh c' (hsplit ▸ List.mem_append_left _ hc')
    refine hok.agree_iff_trusts ?_ ?_
    · rw [hgenerated]
      exact fun hc => hnodup.2.2 _ hc _ List.mem_cons_self rfl
    · rintro ⟨e, he, hid⟩
      exact hfresh c (hsplit ▸ List.mem_append_right _ List.mem_cons_self) e he hid
  constructor
  · intro h before c after hsplit x hrun
    exact (hiff before c after hsplit x hrun).mp (h before c after hsplit x hrun)
  · intro h before c after hsplit x hrun
    exact (hiff before c after hsplit x hrun).mpr (h before c after hsplit x hrun)

/-! ### Two versions of one document -/

/-- An ingestion of this text in which nothing fails. -/
def ingesting (text : String) (newPublicId : String) : IngestCall Nat where
  text := text.toList
  title := none
  metadata := []
  newPublicId
  embedded := some [[0]]
  deleteFails := false
  upsertFails := false
  commitFails := false

/-- The text stands for its hash. -/
def plainHash (text : Text) : String := String.ofList text

/-- A version, another one whose upsert fails, and the first one again. -/
def reverted : List (IngestCall Nat) :=
  [ingesting "first" "a", { ingesting "second" "b" with upsertFails := true },
    ingesting "first" "c"]

/-- What the condition comes to for a history in which the upsert fails. -/
theorem reverted_agrees_iff :
    Trace.Along (Trace.noting (ingestStep plainHash "doc".toList) (attempts plainHash "doc".toList))
        (VectorsAgree plainHash "doc".toList) (⟨[], []⟩, []) reverted ↔
      Trace.Along (Trace.noting (ingestStep plainHash "doc".toList)
          (attempts plainHash "doc".toList))
        (Trusts plainHash "doc".toList) (⟨[], []⟩, []) reverted :=
  ingest_agrees_iff rfl ⟨fun _ he => absurd he (List.not_mem_nil), List.nodup_nil⟩ (by decide)
    fun _ _ _ he => absurd he (List.not_mem_nil)

/-- The last call reports the document unchanged, and there is no vector of it. -/
theorem reverted_lost : ∃ x, Trace.run (Trace.noting (ingestStep plainHash "doc".toList)
      (attempts plainHash "doc".toList)) (⟨[], []⟩, []) (reverted.take 2) = some x ∧
    (ingestDocument plainHash "doc".toList (ingesting "first" "c") x.1).1 = .ok ⟨"a", 1, true⟩ ∧
    (ingestDocument plainHash "doc".toList (ingesting "first" "c") x.1).2.vectors = [] ∧
    chunkEntries "a" "first".toList = [("a:0", "first".toList)] ∧
    ¬ VectorsAgree plainHash "doc".toList x (ingesting "first" "c") := by
  have heval : (Trace.run (Trace.noting (ingestStep plainHash "doc".toList)
      (attempts plainHash "doc".toList)) (⟨[], []⟩, []) (reverted.take 2)).map (fun x =>
        ingestDocument plainHash "doc".toList (ingesting "first" "c") x.1) =
      some (.ok ⟨"a", 1, true⟩, 
        ⟨[("doc".toList, ⟨"a", none, "first", 1, [⟨0, "first", 0, 5⟩]⟩)], []⟩)
      := by
    decide +kernel
  obtain ⟨x, hrun, hresult⟩ := Option.map_eq_some_iff.mp heval
  have hentries : chunkEntries "a" "first".toList = [("a:0", "first".toList)] := by
    decide +kernel
  refine ⟨x, hrun, by rw [hresult], by rw [hresult], hentries, fun hagrees => ?_⟩
  have hleft := hagrees ⟨"a", 1, true⟩ (by rw [hresult])
  rw [hresult] at hleft
  exact List.cons_ne_nil _ _ (hentries.symm.trans hleft.symm)

end Orqent
