/-
Uploads side by side.

The vector store keeps a namespace for each organization, outside any transaction.  An
upload looks up who calls, stages the document's row, deletes the document's vectors,
writes the new ones and commits; any of these may be the last it does, and others go on
in between.  The database looks a document up as its column compares names, so an upload
of `guide` replaces the document `Guide` (`storedName`).  An upload that has the stores to
itself, and names its document as it is stored, is an ingestion (`upload_alone`).
-/
import Orqent.Lib.Trace
import Orqent.Memory.Ingest
import Mathlib.Logic.Function.Basic

namespace Orqent

variable {F ι : Type}

/-! ### Uploads -/

/-- The users by public id, with their organizations, and the public ids of those. -/
structure Directory where
  users : List (String × Nat)
  organizations : List (Nat × String)

/-- The caller's organization, and its public id. -/
def Directory.caller (d : Directory) (publicId : String) : Option (Nat × String) := do
  let user ← d.users.find? fun u => u.1 = publicId
  d.organizations.find? fun o => o.1 = user.2

/-- The collection of an organization. -/
def namespaceFor (organizationPublicId : String) : String := "orqent-" ++ organizationPublicId

/-- A call of `ingest_for_caller`. -/
structure Upload (F : Type) where
  caller : String
  externalId : Text
  call : IngestCall F

/-- How far an upload has come. -/
inductive UploadPhase (F : Type)
  | identified
  /-- The row is staged and the chunks are embedded. -/
  | staged (document : Document) (embeddings : List (List F))
  /-- The document's vectors are deleted. -/
  | cleared (document : Document) (embeddings : List (List F))
  /-- The new vectors are written. -/
  | written (document : Document)

/-- An upload under way, for the organization its caller belongs to. -/
structure Uploading (F : Type) where
  upload : Upload F
  organizationId : Nat
  vectorNamespace : String
  phase : UploadPhase F

/-- The document rows of each organization, the namespaces of the vector store, and the
uploads under way. -/
structure Corpora (F ι : Type) where
  documents : Nat → Dict Text Document
  vectors : String → VectorStore F
  opened : ι → Option (Uploading F)

/-- What happens to an upload. -/
inductive UploadEvent (F ι : Type)
  | begin (i : ι) (u : Upload F)
  | stage (i : ι)
  | clear (i : ι)
  | write (i : ι)
  | commit (i : ι)
  /-- What the upload does next raises. -/
  | abort (i : ι)

/-- The upload it happens to. -/
def UploadEvent.upload : UploadEvent F ι → ι
  | .begin i _ | .stage i | .clear i | .write i | .commit i | .abort i => i

/-- The row as it is committed. -/
def Document.indexed (sha256 : Text → String) (document : Document) (text : Text) : Document :=
  { document with
    chunks := (chunkText text).map (chunkRow sha256)
    chunkCount := (chunkText text).length }

/-- The name of the document that the database finds by this one: names are compared by their
collation keys. -/
def storedName (collate : Text → Text) (documents : Dict Text Document) (name : Text) : Text :=
  ((documents.find? fun e => collate e.1 = collate name).map Prod.fst).getD name

namespace Corpora

variable [DecidableEq ι]

/-- Nothing is uploaded yet. -/
def start : Corpora F ι := ⟨fun _ => [], fun _ => [], fun _ => none⟩

/-- The upload goes on in another phase. -/
def go (s : Corpora F ι) (i : ι) (u : Uploading F) (phase : UploadPhase F) : Corpora F ι :=
  { s with opened := Function.update s.opened i (some { u with phase }) }

/-- The upload is over. -/
def close (s : Corpora F ι) (i : ι) : Corpora F ι :=
  { s with opened := Function.update s.opened i none }

/-- One collection becomes another. -/
def setVectors (s : Corpora F ι) (ns : String) (vectors : VectorStore F) : Corpora F ι :=
  { s with vectors := Function.update s.vectors ns vectors }

/-- The documents of one organization become others. -/
def setDocuments (s : Corpora F ι) (organizationId : Nat) (documents : Dict Text Document) :
    Corpora F ι :=
  { s with documents := Function.update s.documents organizationId documents }

/-- From the checks to the embedding. -/
def stage (collate : Text → Text) (sha256 : Text → String) (s : Corpora F ι) (i : ι)
    (u : Uploading F) : Corpora F ι :=
  let externalId := strip u.upload.externalId
  let call := u.upload.call
  match call.refusal externalId with
  | some _ => s.close i
  | none =>
      let contentHash := sha256 call.text
      let documents := s.documents u.organizationId
      let found := documents.get? (storedName collate documents externalId)
      match found.filter fun d => d.contentHash = contentHash with
      | some _ => s.close i
      | none =>
          match call.embedded with
          | none => s.close i
          | some embeddings => s.go i u (.staged (call.staged contentHash found) embeddings)

/-- Writing the new vectors. -/
def write (s : Corpora F ι) (i : ι) (u : Uploading F) (document : Document)
    (embeddings : List (List F)) : Corpora F ι :=
  let stored := (chunkText u.upload.call.text).map
    (storedChunk u.upload.call.metadata document.publicId)
  match (s.vectors u.vectorNamespace).upsert stored embeddings with
  | none => s.close i
  | some vectors => (s.setVectors u.vectorNamespace vectors).go i u (.written document)

/-- The commit of the row, which the unique index refuses if another was inserted for the
same name. -/
def commit (collate : Text → Text) (sha256 : Text → String) (s : Corpora F ι) (i : ι)
    (u : Uploading F) (document : Document) : Corpora F ι :=
  let documents := s.documents u.organizationId
  let name := storedName collate documents (strip u.upload.externalId)
  if (documents.get? name).all fun d => d.publicId = document.publicId then
    (s.setDocuments u.organizationId
      (documents.set name (document.indexed sha256 u.upload.call.text))).close i
  else s.close i

/-- One event; a failing statement leaves the upload where it is. -/
def step (collate : Text → Text) (sha256 : Text → String) (d : Directory) (s : Corpora F ι) :
    UploadEvent F ι → Option (Corpora F ι)
  | .begin i u =>
      match s.opened i, d.caller u.caller with
      | none, some (organizationId, publicId) =>
          some (s.go i ⟨u, organizationId, namespaceFor publicId, .identified⟩ .identified)
      | none, none => some s
      | some _, _ => none
  | .stage i =>
      match s.opened i with
      | some u =>
          match u.phase with
          | .identified => some (s.stage collate sha256 i u)
          | _ => none
      | none => none
  | .clear i =>
      match s.opened i with
      | some u =>
          match u.phase with
          | .staged document embeddings =>
              some ((s.setVectors u.vectorNamespace
                ((s.vectors u.vectorNamespace).deleteDocument document.publicId)).go i u
                  (.cleared document embeddings))
          | _ => none
      | none => none
  | .write i =>
      match s.opened i with
      | some u =>
          match u.phase with
          | .cleared document embeddings => some (s.write i u document embeddings)
          | _ => none
      | none => none
  | .commit i =>
      match s.opened i with
      | some u =>
          match u.phase with
          | .written document => some (s.commit collate sha256 i u document)
          | _ => none
      | none => none
  | .abort i => (s.opened i).map fun _ => s.close i

end Corpora

/-! ### One upload at a time -/

/-- An organization's documents and its namespace. -/
def Corpora.memory (s : Corpora F ι) (organizationId : Nat) (publicId : String) : Memory F :=
  ⟨s.documents organizationId, s.vectors (namespaceFor publicId)⟩

section Alone

variable {collate : Text → Text} (sha256 : Text → String) {d : Directory} {s : Corpora F ι} {i : ι}
  {u : Upload F} {organizationId : Nat} (publicId : String) {embeddings : List (List F)}

/-- The row an upload stages. -/
def Corpora.stagedRow (s : Corpora F ι) (organizationId : Nat)
    (u : Upload F) : Document :=
  u.call.staged (sha256 u.call.text) ((s.documents organizationId).get? (strip u.externalId))

/-- What an ingestion that gets past its checks does, where no store fails. -/
theorem ingestDocument_indexed (hrefusal : u.call.refusal (strip u.externalId) = none)
    (hfound : ((s.documents organizationId).get? (strip u.externalId)).filter
      (fun row => row.contentHash = sha256 u.call.text) = none)
    (hembedded : u.call.embedded = some embeddings)
    (hfails : u.call.deleteFails = false ∧ u.call.upsertFails = false ∧
      u.call.commitFails = false) :
    (ingestDocument sha256 u.externalId u.call (s.memory organizationId publicId)).2 =
      let document := s.stagedRow sha256 organizationId u
      let deleted := (s.vectors (namespaceFor publicId)).deleteDocument document.publicId
      match deleted.upsert ((chunkText u.call.text).map
        (storedChunk u.call.metadata document.publicId)) embeddings with
      | none => ⟨s.documents organizationId, deleted⟩
      | some vectors =>
          ⟨(s.documents organizationId).set (strip u.externalId)
            (document.indexed sha256 u.call.text), vectors⟩ := by
  obtain ⟨hdelete, hupsert, hcommit⟩ := hfails
  unfold ingestDocument indexDocument Corpora.memory Corpora.stagedRow
  dsimp only
  rw [hrefusal]
  dsimp only
  rw [hfound, hembedded]
  simp only [hdelete, hupsert, hcommit, Bool.false_eq_true, if_false]
  cases VectorStore.upsert ((s.vectors (namespaceFor publicId)).deleteDocument
      (u.call.staged (sha256 u.call.text)
        ((s.documents organizationId).get? (strip u.externalId))).publicId)
      ((chunkText u.call.text).map (storedChunk u.call.metadata
        (u.call.staged (sha256 u.call.text)
          ((s.documents organizationId).get? (strip u.externalId))).publicId)) embeddings with
  | none => rfl
  | some vectors => rfl

/-- The upload as it begins. -/
def Upload.opened (u : Upload F) (organizationId : Nat) (publicId : String) : Uploading F :=
  ⟨u, organizationId, namespaceFor publicId, .identified⟩

variable [DecidableEq ι] {publicId}

variable (collate) in
theorem run_to_stage (hfree : s.opened i = none)
    (hcaller : d.caller u.caller = some (organizationId, publicId)) :
    Trace.run (Corpora.step collate sha256 d) s [.begin i u, .stage i] =
      some ((s.go i (u.opened organizationId publicId) .identified).stage collate sha256 i
        (u.opened organizationId publicId)) := by
  have hbegin : s.step collate sha256 d (.begin i u) =
      some (s.go i (u.opened organizationId publicId) .identified) := by
    unfold Corpora.step
    dsimp only
    rw [hfree, hcaller]
    rfl
  rw [Trace.run_cons, hbegin, Option.bind_some, Trace.run_singleton]
  unfold Corpora.step
  dsimp only [Corpora.go]
  rw [Function.update_self]
  rfl

/-- The upload has deleted its document's vectors. -/
def Corpora.cleared (s : Corpora F ι) (i : ι) (u : Uploading F) (document : Document)
    (embeddings : List (List F)) : Corpora F ι :=
  (s.setVectors u.vectorNamespace
    ((s.vectors u.vectorNamespace).deleteDocument document.publicId)).go i u
      (.cleared document embeddings)

theorem run_to_write (hfree : s.opened i = none)
    (hcaller : d.caller u.caller = some (organizationId, publicId))
    (hname : storedName collate (s.documents organizationId) (strip u.externalId) =
      strip u.externalId)
    (hrefusal : u.call.refusal (strip u.externalId) = none)
    (hfound : ((s.documents organizationId).get? (strip u.externalId)).filter
      (fun row => row.contentHash = sha256 u.call.text) = none)
    (hembedded : u.call.embedded = some embeddings) :
    ∃ s' : Corpora F ι, s'.documents = s.documents ∧ s'.vectors = s.vectors ∧
      Trace.run (Corpora.step collate sha256 d) s [.begin i u, .stage i, .clear i, .write i] =
        some ((s'.cleared i (u.opened organizationId publicId)
          (s.stagedRow sha256 organizationId u) embeddings).write i
            { u.opened organizationId publicId with
              phase := .cleared (s.stagedRow sha256 organizationId u) embeddings }
            (s.stagedRow sha256 organizationId u) embeddings) := by
  let document := s.stagedRow sha256 organizationId u
  let opened := u.opened organizationId publicId
  let staged := (s.go i opened .identified).go i opened (.staged document embeddings)
  have hstage : (s.go i opened .identified).stage collate sha256 i opened = staged := by
    unfold Corpora.stage
    dsimp only [opened, Upload.opened, Corpora.go]
    rw [hrefusal]
    dsimp only
    rw [hname, hfound, hembedded]
    rfl
  have hclear : staged.step collate sha256 d (.clear i) =
      some (staged.cleared i opened document embeddings) := by
    unfold Corpora.step
    dsimp only [staged, Corpora.go]
    rw [Function.update_self]
    rfl
  have hwrite : (staged.cleared i opened document embeddings).step collate sha256 d (.write i) =
      some ((staged.cleared i opened document embeddings).write i
        { opened with phase := .cleared document embeddings } document embeddings) := by
    unfold Corpora.step
    dsimp only [Corpora.cleared, Corpora.go]
    rw [Function.update_self]
  refine ⟨staged, rfl, rfl, ?_⟩
  have hrun := run_to_stage collate sha256 hfree hcaller
  rw [hstage] at hrun
  exact Trace.run_snoc (Trace.run_snoc hrun hclear) hwrite

omit [DecidableEq ι] in
/-- The row that is staged is that of the document there is, or a new one. -/
theorem stagedRow_unique : ((s.documents organizationId).get? (strip u.externalId)).all
    (fun row => row.publicId = (s.stagedRow sha256 organizationId u).publicId) = true := by
  cases hrow : (s.documents organizationId).get? (strip u.externalId) with
  | none => rfl
  | some row => simp [Corpora.stagedRow, hrow, IngestCall.staged]

/-- An upload that gets past its checks. -/
theorem upload_indexed (hfree : s.opened i = none)
    (hcaller : d.caller u.caller = some (organizationId, publicId))
    (hname : storedName collate (s.documents organizationId) (strip u.externalId) =
      strip u.externalId)
    (hrefusal : u.call.refusal (strip u.externalId) = none)
    (hfound : ((s.documents organizationId).get? (strip u.externalId)).filter
      (fun row => row.contentHash = sha256 u.call.text) = none)
    (hembedded : u.call.embedded = some embeddings)
    (hfails : u.call.deleteFails = false ∧ u.call.upsertFails = false ∧
      u.call.commitFails = false) :
    ∃ events s', Trace.run (Corpora.step collate sha256 d) s events = some s' ∧
      s'.memory organizationId publicId =
        (ingestDocument sha256 u.externalId u.call (s.memory organizationId publicId)).2 := by
  rw [ingestDocument_indexed sha256 publicId hrefusal hfound hembedded hfails]
  let document := s.stagedRow sha256 organizationId u
  let opened := u.opened organizationId publicId
  obtain ⟨s', hdocuments, hvectors, hrun⟩ :=
    run_to_write sha256 hfree hcaller hname hrefusal hfound hembedded
  have hcleared : (s'.cleared i opened document embeddings).vectors (namespaceFor publicId) =
      (s.vectors (namespaceFor publicId)).deleteDocument document.publicId := by
    rw [← hvectors]
    exact Function.update_self ..
  dsimp only
  cases hup : VectorStore.upsert ((s.vectors (namespaceFor publicId)).deleteDocument
      (s.stagedRow sha256 organizationId u).publicId)
      ((chunkText u.call.text).map (storedChunk u.call.metadata
        (s.stagedRow sha256 organizationId u).publicId)) embeddings with
  | none =>
      refine ⟨_, _, hrun, ?_⟩
      unfold Corpora.write
      dsimp only [opened, document, Upload.opened] at hcleared ⊢
      rw [hcleared, hup]
      exact congrArg₂ Memory.mk (congrFun hdocuments _) hcleared
  | some vectors =>
      let written := ((s'.cleared i opened document embeddings).setVectors
        (namespaceFor publicId) vectors).go i opened (.written document)
      have hwritten : (s'.cleared i opened document embeddings).write i
          { opened with phase := .cleared document embeddings } document embeddings = written := by
        unfold Corpora.write
        dsimp only [opened, Upload.opened, document] at hcleared ⊢
        rw [hcleared, hup]
        rfl
      have hcommitted : written.step collate sha256 d (.commit i) =
          some (written.commit collate sha256 i { opened with phase := .written document }
            document) := by
        unfold Corpora.step
        dsimp only [written, Corpora.go]
        rw [Function.update_self]
      refine ⟨_, _, Trace.run_snoc (hrun.trans (congrArg some hwritten)) hcommitted, ?_⟩
      have hrows : written.documents organizationId = s.documents organizationId :=
        congrFun hdocuments _
      unfold Corpora.commit
      dsimp only [opened, Upload.opened]
      rw [hrows, hname, if_pos (stagedRow_unique sha256)]
      refine congrArg₂ Memory.mk (Function.update_self ..) ?_
      exact Function.update_self ..

end Alone

/-- **An upload that nothing comes between, and no store fails, is an ingestion**, if no document
is there whose name the database takes for its own. -/
theorem upload_alone [DecidableEq ι] (collate : Text → Text) (sha256 : Text → String)
    (d : Directory) (s : Corpora F ι) (i : ι) (u : Upload F) (organizationId : Nat)
    (publicId : String)
    (hname : storedName collate (s.documents organizationId) (strip u.externalId) =
      strip u.externalId)
    (hfree : s.opened i = none) (hcaller : d.caller u.caller = some (organizationId, publicId))
    (hfails : u.call.deleteFails = false ∧ u.call.upsertFails = false ∧
      u.call.commitFails = false) :
    ∃ events s', Trace.run (Corpora.step collate sha256 d) s events = some s' ∧
      s'.memory organizationId publicId =
        (ingestDocument sha256 u.externalId u.call (s.memory organizationId publicId)).2 := by
  have hstage := run_to_stage collate sha256 hfree hcaller
  cases hrefusal : u.call.refusal (strip u.externalId) with
  | some message =>
      refine ⟨_, _, hstage, ?_⟩
      unfold Corpora.stage ingestDocument
      dsimp only [Upload.opened]
      rw [hrefusal]
      rfl
  | none =>
      cases hfound : ((s.documents organizationId).get? (strip u.externalId)).filter
          fun row => row.contentHash = sha256 u.call.text with
      | some row =>
          refine ⟨_, _, hstage, ?_⟩
          unfold Corpora.stage ingestDocument Corpora.memory
          dsimp only [Upload.opened, Corpora.go]
          rw [hrefusal]
          dsimp only
          rw [hname, hfound]
          rfl
      | none =>
          cases hembedded : u.call.embedded with
          | none =>
              refine ⟨_, _, hstage, ?_⟩
              unfold Corpora.stage ingestDocument indexDocument Corpora.memory
              dsimp only [Upload.opened, Corpora.go]
              rw [hrefusal]
              dsimp only
              rw [hname, hfound, hembedded]
              rfl
          | some embeddings =>
              exact upload_indexed sha256 hfree hcaller hname hrefusal hfound hembedded hfails

end Orqent
